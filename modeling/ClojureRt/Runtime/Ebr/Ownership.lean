import ClojureRt.Runtime.Ebr.Defs

/-!
# Thread records and the mutex

Two facts about who may write what.  A thread record has at most one owner, also
while records are reused, and an owner's record is not terminated.  The mutex is
held exactly by the thread that runs `Ebr_synchronize_and_reclaim`, and the
epoch that thread has read, or advanced, is the global one: nobody else advances
it meanwhile.
-/

namespace ClojureRt
namespace Runtime
namespace Ebr

variable {Value : Type*} {isPtr : Value → Bool}

/-! ## Owners of thread records -/

/-- The record a thread works on while it registers. -/
def Pc.registering : Pc Value → Option Address
  | .registerStoreActive record => some record
  | .registerStoreEpoch record => some record
  | .registerLoadHead record => some record
  | .registerPush record _ => some record
  | _ => none

/-- The published records a registering thread will look at or has claimed. -/
def Pc.published : Pc Value → List Address
  | .registerScan todo => todo
  | .registerClaim record todo => record :: todo
  | .registerStoreActive record => [record]
  | .registerStoreEpoch record => [record]
  | _ => []

/-- A thread owns the record it is registered with, or is registering. -/
def Owns (state : State Value) (thread : Thread) (record : Address) : Prop :=
  state.threadState thread = some record ∨
    (state.pc thread).registering = some record

/-- Records have one owner at a time. -/
structure Ownership (state : State Value) : Prop where
  unique : ∀ left right record, Owns state left record →
    Owns state right record →
    left = right
  live : ∀ thread record, Owns state thread record →
    ∃ found, state.record record = some found ∧ found.terminated = false
  published : ∀ thread record, record ∈ (state.pc thread).published →
    record ∈ state.registry
  registered : ∀ thread record, state.threadState thread = some record →
    record ∈ state.registry

namespace Ownership

theorem initial : Ownership (State.initial : State Value) := by
  constructor <;> simp [Owns, State.initial, Pc.registering, Pc.published]

/-- Moving on keeps ownership when the record a thread newly works on was
free. -/
theorem goto
    {state : State Value}
    (ownership : Ownership state)
    (pc : Pc Value)
    (registeringOwned : ∀ record, pc.registering = some record →
      Owns state thread record ∨
        ((∀ other, ¬ Owns state other record) ∧
          ∃ found, state.record record = some found ∧ found.terminated = false))
    (publishedRegistered : ∀ record ∈ pc.published, record ∈ state.registry) :
    Ownership (state.goto thread pc) := by
  have pcEqual : ∀ other, (state.goto thread pc).pc other =
      if other = thread then pc else state.pc other :=
    fun other => Function.update_apply _ _ _ _
  -- An owner afterwards was one before, or is `thread` with a free record.
  have ownsBefore : ∀ other record, Owns (state.goto thread pc) other record →
      Owns state other record ∨
        (other = thread ∧ (∀ former, ¬ Owns state former record) ∧
          ∃ found, state.record record = some found ∧
            found.terminated = false) := by
    rintro other record (registered | registering)
    · exact .inl (.inl registered)
    · rw [pcEqual] at registering
      split at registering
      · rename_i isThread
        subst isThread
        rcases registeringOwned record registering with owned | free
        · exact .inl owned
        · exact .inr ⟨rfl, free⟩
      · exact .inl (.inr registering)
  refine ⟨?_, ?_, ?_, ownership.registered⟩
  · intro left right record leftOwns rightOwns
    rcases ownsBefore left record leftOwns with leftBefore | ⟨rfl, free, -⟩
    · rcases ownsBefore right record rightOwns with rightBefore | ⟨-, free, -⟩
      · exact ownership.unique left right record leftBefore rightBefore
      · exact absurd leftBefore (free left)
    · rcases ownsBefore right record rightOwns with rightBefore |
        ⟨rightEqual, -⟩
      · exact absurd rightBefore (free right)
      · exact rightEqual.symm
  · intro other record owns
    rcases ownsBefore other record owns with before | ⟨-, -, live⟩
    · exact ownership.live other record before
    · exact live
  · intro other record member
    rw [pcEqual] at member
    split at member
    · exact publishedRegistered record member
    · exact ownership.published other record member

/-- Writing a record that stays live, or that nobody owns. -/
theorem setRecord
    {state : State Value}
    (ownership : Ownership state)
    (record : Address)
    (written : ThreadState)
    (allowed : written.terminated = false ∨ ∀ thread,
      ¬ Owns state thread record) :
    Ownership (state.setRecord record written) := by
  refine ⟨ownership.unique, ?_, ownership.published, ownership.registered⟩
  intro thread other owns
  have owned : Owns state thread other := owns
  by_cases same : other = record
  · subst same
    refine ⟨written, Function.update_self .., ?_⟩
    exact allowed.resolve_right fun free => free thread owned
  · obtain ⟨found, foundEqual, live⟩ := ownership.live thread other owned
    exact ⟨found,
      by simpa [State.setRecord, Function.update_apply, same] using foundEqual,
      live⟩

/-- A thread registers with a published record that it owns. -/
theorem setThreadState
    {state : State Value}
    (ownership : Ownership state)
    (owned : Owns state thread record)
    (registered : record ∈ state.registry) :
    Ownership (state.setThreadState thread (some record)) := by
  have ownsBefore : ∀ other someRecord,
      Owns (state.setThreadState thread (some record)) other someRecord →
        Owns state other someRecord := by
    rintro other someRecord (registered | registering)
    · by_cases isThread : other = thread
      · subst isThread
        have : record = someRecord := by
          simpa [State.setThreadState] using registered
        exact this ▸ owned
      · exact .inl (by simpa [State.setThreadState, isThread] using registered)
    · exact .inr registering
  refine ⟨?_, ?_, ownership.published, ?_⟩
  · intro left right someRecord leftOwns rightOwns
    exact ownership.unique left right someRecord (ownsBefore _ _ leftOwns)
      (ownsBefore _ _ rightOwns)
  · intro other someRecord owns
    exact ownership.live other someRecord (ownsBefore other someRecord owns)
  · intro other someRecord equal
    by_cases isThread : other = thread
    · have : record = someRecord := by
        simpa [State.setThreadState, isThread] using equal
      exact this ▸ registered
    · exact ownership.registered other someRecord
        (by simpa [State.setThreadState, isThread] using equal)

/-- A thread gives up its record. -/
theorem clearThreadState
    {state : State Value}
    (ownership : Ownership state)
    (thread : Thread) :
    Ownership (state.setThreadState thread none) := by
  have ownsBefore : ∀ other someRecord,
      Owns (state.setThreadState thread none) other someRecord →
        Owns state other someRecord := by
    rintro other someRecord (registered | registering)
    · by_cases isThread : other = thread
      · simp [State.setThreadState, isThread] at registered
      · exact .inl (by simpa [State.setThreadState, isThread] using registered)
    · exact .inr registering
  refine ⟨?_, ?_, ownership.published, ?_⟩
  · intro left right someRecord leftOwns rightOwns
    exact ownership.unique left right someRecord (ownsBefore _ _ leftOwns)
      (ownsBefore _ _ rightOwns)
  · intro other someRecord owns
    exact ownership.live other someRecord (ownsBefore other someRecord owns)
  · intro other someRecord equal
    by_cases isThread : other = thread
    · simp [State.setThreadState, isThread] at equal
    · exact ownership.registered other someRecord
        (by simpa [State.setThreadState, isThread] using equal)

/-- Publishing one more record. -/
theorem publish
    {state : State Value}
    (ownership : Ownership state)
    (record : Address) :
    Ownership { state with registry := record :: state.registry } :=
  ⟨ownership.unique, ownership.live,
    fun thread other member =>
      List.mem_cons_of_mem _ (ownership.published thread other member),
    fun thread other equal =>
      List.mem_cons_of_mem _ (ownership.registered thread other equal)⟩

/-- A step outside registration moves a thread to code that works on no record
and leaves records, registry and registrations alone. -/
theorem plain
    {before after : State Value}
    (ownership : Ownership before)
    (thread : Thread)
    (pc : Pc Value)
    (pcEqual : after.pc = Function.update before.pc thread pc)
    (recordEqual : after.record = before.record)
    (registryEqual : after.registry = before.registry)
    (threadStateEqual : after.threadState = before.threadState)
    (notRegistering : pc.registering = none)
    (nothingPublished : pc.published = []) :
    Ownership after := by
  have moved : Ownership (before.goto thread pc) := by
    refine ownership.goto pc ?_ ?_
    · intro record registering
      rw [notRegistering] at registering
      cases registering
    · intro record member
      rw [nothingPublished] at member
      cases member
  constructor
  · simp only [Owns, threadStateEqual, pcEqual]
    exact moved.unique
  · simp only [Owns, recordEqual, threadStateEqual, pcEqual]
    exact moved.live
  · simp only [registryEqual, pcEqual]
    exact moved.published
  · simp only [registryEqual, threadStateEqual]
    exact moved.registered

theorem registerStep
    {before after : State Value}
    (ownership : Ownership before)
    (step : RegisterStep thread before after) :
    Ownership after := by
  cases step with
  | loadHead atIdle unregistered =>
      refine ownership.goto _ (by simp [Pc.registering]) ?_
      exact fun record member => member
  | loadTerminated record todo found atScan foundEqual =>
      have todoRegistered : ∀ other ∈ record :: todo, other ∈ before.registry :=
        fun other member => ownership.published thread other (by rwa [atScan])
      cases found.terminated with
      | true => exact ownership.goto _ (by simp [Pc.registering]) todoRegistered
      | false =>
          refine ownership.goto _ (by simp [Pc.registering])
            fun other member => ?_
          exact todoRegistered other (List.mem_cons_of_mem _ member)
  | claim record todo found atClaim foundEqual terminated =>
      have free : ∀ other, ¬ Owns before other record := by
        intro other owns
        obtain ⟨live, liveEqual, notTerminated⟩ :=
          ownership.live other record owns
        rw [foundEqual] at liveEqual
        cases liveEqual
        simp [terminated] at notTerminated
      have written := ownership.setRecord record
        { found with terminated := false }
        (.inl rfl)
      refine written.goto _ ?_ ?_
      · intro other registering
        cases registering
        exact .inr ⟨free, _, Function.update_self .., rfl⟩
      · intro other member
        obtain rfl : other = record := by simpa [Pc.published] using member
        exact ownership.published thread other (by simp [atClaim, Pc.published])
  | claimFailed record todo found atClaim foundEqual notTerminated =>
      refine ownership.goto _ (by simp [Pc.registering]) fun other member => ?_
      exact ownership.published thread other
        (by rw [atClaim]; exact List.mem_cons_of_mem _ member)
  | storeActive record found atStore foundEqual =>
      have owns : Owns before thread record := .inr (by rw [atStore]; rfl)
      obtain ⟨live, liveEqual, notTerminated⟩ :=
        ownership.live thread record owns
      obtain rfl : found = live := by
        rw [foundEqual] at liveEqual
        exact Option.some.inj liveEqual
      have written := ownership.setRecord record { found with active := false }
        (.inl notTerminated)
      refine written.goto _ ?_ ?_
      · intro other registering
        cases registering
        exact .inl owns
      · intro other member
        obtain rfl : other = record := by simpa [Pc.published] using member
        exact ownership.published thread other (by simp [atStore, Pc.published])
  | storeEpoch record found atStore foundEqual =>
      have owns : Owns before thread record := .inr (by rw [atStore]; rfl)
      have registered : record ∈ before.registry :=
        ownership.published thread record (by simp [atStore, Pc.published])
      obtain ⟨live, liveEqual, notTerminated⟩ :=
        ownership.live thread record owns
      obtain rfl : found = live := by
        rw [foundEqual] at liveEqual
        exact Option.some.inj liveEqual
      have written := ownership.setRecord record { found with localEpoch := 0 }
        (.inl notTerminated)
      exact (written.setThreadState owns registered).plain thread _ rfl rfl rfl
        rfl rfl rfl
  | allocate record atScan unallocated =>
      have free : ∀ other, ¬ Owns before other record := by
        intro other owns
        obtain ⟨live, liveEqual, -⟩ := ownership.live other record owns
        rw [unallocated] at liveEqual
        cases liveEqual
      have written := ownership.setRecord record ⟨0, false, false⟩
        (.inl rfl)
      refine written.goto _ ?_ (by simp [Pc.published])
      intro other registering
      cases registering
      exact .inr ⟨free, _, Function.update_self .., rfl⟩
  | loadOldHead record atLoad =>
      refine ownership.goto _ ?_ (by simp [Pc.published])
      intro other registering
      cases registering
      exact .inl (.inr (by rw [atLoad]; rfl))
  | push record oldHead atPush headEqual =>
      subst headEqual
      have owns : Owns before thread record := .inr (by rw [atPush]; rfl)
      have registered :=
        (ownership.publish record).setThreadState owns (by simp)
      exact registered.plain thread _ rfl rfl rfl rfl rfl rfl
  | pushFailed record oldHead atPush =>
      refine ownership.goto _ ?_ (by simp [Pc.published])
      intro other registering
      cases registering
      exact .inl (.inr (by rw [atPush]; rfl))
  | unregisterStoreActive record found atIdle owned foundEqual =>
      obtain ⟨live, liveEqual, notTerminated⟩ :=
        ownership.live thread record (.inl owned)
      obtain rfl : found = live := by
        rw [foundEqual] at liveEqual
        exact Option.some.inj liveEqual
      have written := ownership.setRecord record { found with active := false }
        (.inl notTerminated)
      exact written.plain thread _ rfl rfl rfl rfl rfl rfl
  | unregisterStoreTerminated record found atStore owned foundEqual =>
      have cleared := ownership.clearThreadState thread
      have free : ∀ other,
          ¬ Owns (before.setThreadState thread none) other record := by
        rintro other (registered | registering)
        · by_cases isThread : other = thread
          · simp [State.setThreadState, isThread] at registered
          · have ownsOther : Owns before other record :=
              .inl (by simpa [State.setThreadState, isThread] using registered)
            exact isThread (ownership.unique _ _ _ ownsOther (.inl owned))
        · have ownsOther : Owns before other record := .inr registering
          obtain rfl := ownership.unique _ _ _ ownsOther (.inl owned)
          have : (before.pc other).registering = some record := registering
          rw [atStore] at this
          cases this
      have written := cleared.setRecord record { found with terminated := true }
        (.inr free)
      exact written.plain thread _ rfl rfl rfl rfl rfl rfl

theorem sectionStep
    {before after : State Value}
    (ownership : Ownership before)
    (step : SectionStep thread before after) :
    Ownership after := by
  -- The owner of a record may store into its other fields.
  have writeOwn : ∀ record found written,
      before.threadState thread = some record →
        before.record record = some found →
      written.terminated = found.terminated →
      Ownership (before.setRecord record written) := by
    intro record found written owned foundEqual terminatedEqual
    obtain ⟨live, liveEqual, notTerminated⟩ :=
      ownership.live thread record (.inl owned)
    obtain rfl : found = live := by
      rw [foundEqual] at liveEqual
      exact Option.some.inj liveEqual
    exact ownership.setRecord record written
      (.inl (terminatedEqual.trans notTerminated))
  cases step with
  | enterLoadEpoch => exact ownership.plain thread _ rfl rfl rfl rfl rfl rfl
  | enterStoreActive current record found atPc owned foundEqual =>
      have written := writeOwn record found { found with active := true }
        owned foundEqual rfl
      exact written.plain thread _ rfl rfl rfl rfl rfl rfl
  | enterStoreEpoch current record found atPc owned foundEqual =>
      have written := writeOwn record found { found with localEpoch := current }
        owned foundEqual rfl
      exact written.plain thread _ rfl rfl rfl rfl rfl rfl
  | flushLoadEpoch => exact ownership.plain thread _ rfl rfl rfl rfl rfl rfl
  | flushStoreEpoch current record found atPc owned foundEqual =>
      have written := writeOwn record found { found with localEpoch := current }
        owned foundEqual rfl
      exact written.plain thread _ rfl rfl rfl rfl rfl rfl
  | flushStoreEpochOutside current record found atPc owned foundEqual =>
      have written := writeOwn record found { found with localEpoch := current }
        owned foundEqual rfl
      exact written.plain thread _ rfl rfl rfl rfl rfl rfl
  | leave record found atPc owned foundEqual =>
      have written := writeOwn record found { found with active := false }
        owned foundEqual rfl
      exact written.plain thread _ rfl rfl rfl rfl rfl rfl
  | unlink => exact ownership.plain thread _ rfl rfl rfl rfl rfl rfl

theorem retireStep
    {before after : State Value}
    (ownership : Ownership before)
    (step : RetireStep isPtr thread before after) :
    Ownership after := by
  cases step <;>
    exact ownership.plain thread _ rfl rfl rfl rfl rfl rfl

theorem syncStep
    {before after : State Value}
    (ownership : Ownership before)
    (step : SyncStep thread before after) :
    Ownership after := by
  cases step with
  | loadActive =>
      refine ownership.plain thread _ rfl rfl rfl rfl ?_ ?_ <;> split <;> rfl
  | loadLocalEpoch =>
      refine ownership.plain thread _ rfl rfl rfl rfl ?_ ?_ <;> split <;> rfl
  | _ => exact ownership.plain thread _ rfl rfl rfl rfl rfl rfl

end Ownership

/-- Records have one owner in every reachable state. -/
theorem Reachable.ownership
    {state : State Value}
    (reachable : Reachable isPtr state) :
    Ownership state := by
  refine TransitionSystem.Reachable.invariant ?_ ?_ reachable
  · rintro state rfl
    exact Ownership.initial
  · intro before after _ ownership step
    cases step with
    | register thread step => exact ownership.registerStep step
    | critical thread step => exact ownership.sectionStep step
    | retire thread step => exact ownership.retireStep step
    | sync thread step => exact ownership.syncStep step

/-! ## The mutex -/

/-- The thread is inside `Ebr_synchronize_and_reclaim`. -/
def Pc.inSync : Pc Value → Bool
  | .syncLoadGlobal => true
  | .syncLoadRegistry _ => true
  | .syncScan _ _ => true
  | .syncLoadEpoch _ _ _ => true
  | .syncAdvance _ => true
  | .syncSteal _ => true
  | .syncLoop _ _ _ => true
  | .syncLoadPending _ _ => true
  | .syncPush _ _ _ => true
  | .syncUnlock => true
  | .forceLoadPending => true
  | _ => false

/-- The value of `current_global` while it is used. -/
def Pc.currentGlobal : Pc Value → Option Nat
  | .syncLoadRegistry currentGlobal => some currentGlobal
  | .syncScan currentGlobal _ => some currentGlobal
  | .syncLoadEpoch currentGlobal _ _ => some currentGlobal
  | .syncAdvance currentGlobal => some currentGlobal
  | .syncSteal currentGlobal => some currentGlobal
  | .syncLoop currentGlobal _ _ => some currentGlobal
  | _ => none

theorem Pc.inSync_of_currentGlobal
    {pc : Pc Value}
    (equal : pc.currentGlobal = some epoch) :
    pc.inSync = true := by
  cases pc <;> simp_all [Pc.currentGlobal, Pc.inSync]

/-- One reclaimer runs at a time, with the current epoch in hand. -/
structure Synchronized (state : State Value) : Prop where
  holder : ∀ thread, (state.pc thread).inSync = true →
    state.synchronizationMutex = some thread
  current : ∀ thread epoch, (state.pc thread).currentGlobal = some epoch →
    epoch = state.globalEpoch

namespace Synchronized

theorem initial : Synchronized (State.initial : State Value) := by
  constructor <;> simp [State.initial, Pc.inSync, Pc.currentGlobal]

/-- A step that leaves mutex and epoch alone: the thread stays on its side of
the mutex and holds the epoch it held, or the one it just read. -/
theorem plain
    {before after : State Value}
    (synchronized : Synchronized before)
    (thread : Thread)
    (pc : Pc Value)
    (pcEqual : after.pc = Function.update before.pc thread pc)
    (mutexEqual : after.synchronizationMutex = before.synchronizationMutex)
    (epochEqual : after.globalEpoch = before.globalEpoch)
    (inSync : pc.inSync = true → (before.pc thread).inSync = true)
    (current : ∀ epoch, pc.currentGlobal = some epoch →
      (before.pc thread).currentGlobal = some epoch ∨
      epoch = before.globalEpoch) :
    Synchronized after := by
  constructor
  · intro other otherInSync
    rw [mutexEqual]
    rw [pcEqual, Function.update_apply] at otherInSync
    split at otherInSync
    · rename_i isThread
      subst isThread
      exact synchronized.holder other (inSync otherInSync)
    · exact synchronized.holder other otherInSync
  · intro other epoch otherCurrent
    rw [epochEqual]
    rw [pcEqual, Function.update_apply] at otherCurrent
    split at otherCurrent
    · rcases current epoch otherCurrent with held | read
      · exact synchronized.current thread epoch held
      · exact read
    · exact synchronized.current other epoch otherCurrent

theorem registerStep
    {before after : State Value}
    (synchronized : Synchronized before)
    (step : RegisterStep thread before after) :
    Synchronized after := by
  cases step with
  | loadTerminated record todo found =>
      refine synchronized.plain thread _ rfl rfl rfl ?_ ?_ <;>
        cases found.terminated <;> simp [Pc.inSync, Pc.currentGlobal]
  | _ =>
      exact synchronized.plain thread _ rfl rfl rfl (by simp [Pc.inSync])
        (by simp [Pc.currentGlobal])

theorem sectionStep
    {before after : State Value}
    (synchronized : Synchronized before)
    (step : SectionStep thread before after) :
    Synchronized after := by
  cases step <;>
    exact synchronized.plain thread _ rfl rfl rfl (by simp [Pc.inSync])
      (by simp [Pc.currentGlobal])

theorem retireStep
    {before after : State Value}
    (synchronized : Synchronized before)
    (step : RetireStep isPtr thread before after) :
    Synchronized after := by
  cases step <;>
    exact synchronized.plain thread _ rfl rfl rfl (by simp [Pc.inSync])
      (by simp [Pc.currentGlobal])

/-- Whoever holds the mutex is the only thread inside. -/
theorem eq_of_inSync
    {state : State Value}
    (synchronized : Synchronized state)
    (leftInSync : (state.pc left).inSync = true)
    (rightInSync : (state.pc right).inSync = true) :
    left = right := by
  have leftHolds := synchronized.holder left leftInSync
  have rightHolds := synchronized.holder right rightInSync
  rw [leftHolds] at rightHolds
  exact Option.some.inj rightHolds

/-- Taking the mutex: nobody was inside, so only the new holder is. -/
theorem lock
    {before : State Value}
    {pc : Pc Value}
    (synchronized : Synchronized before)
    (unlocked : before.synchronizationMutex = none)
    (nothingRead : pc.currentGlobal = none) :
    Synchronized
      (({ before with synchronizationMutex := some thread }).goto thread
        pc) := by
  have outside : ∀ other, (before.pc other).inSync = false := by
    intro other
    cases inSync : (before.pc other).inSync with
    | false => rfl
    | true =>
        have held := synchronized.holder other inSync
        rw [unlocked] at held
        cases held
  constructor
  · intro other otherInSync
    simp only [State.goto, Function.update_apply] at otherInSync
    split at otherInSync
    · rename_i isThread
      rw [isThread]
      rfl
    · simp [outside] at otherInSync
  · intro other epoch otherCurrent
    simp only [State.goto, Function.update_apply] at otherCurrent
    split at otherCurrent
    · rw [nothingRead] at otherCurrent
      cases otherCurrent
    · have := Pc.inSync_of_currentGlobal otherCurrent
      simp [outside] at this

theorem syncStep
    {before after : State Value}
    (synchronized : Synchronized before)
    (step : SyncStep thread before after) :
    Synchronized after := by
  have stay : ∀ pc, before.pc thread = pc → pc.inSync = true →
      (before.pc thread).inSync = true := by
    rintro pc rfl inSync
    exact inSync
  cases step with
  | lock atIdle unlocked => exact synchronized.lock unlocked rfl
  | forceLock atIdle unlocked => exact synchronized.lock unlocked rfl
  | loadActive currentGlobal record todo found atPc =>
      refine synchronized.plain thread _ rfl rfl rfl
        (fun _ => stay _ atPc rfl) ?_
      cases found.active <;> simp [atPc, Pc.currentGlobal]
  | loadLocalEpoch currentGlobal record todo found atPc =>
      refine synchronized.plain thread _ rfl rfl rfl
        (fun _ => stay _ atPc rfl) ?_
      intro epoch equal
      left
      rw [atPc]
      split at equal <;> exact equal
  | advance currentGlobal atPc =>
      have inside : (before.pc thread).inSync = true := stay _ atPc rfl
      constructor
      · intro other otherInSync
        simp only [State.goto, Function.update_apply] at otherInSync
        split at otherInSync
        · rename_i isThread
          subst isThread
          exact synchronized.holder other inside
        · exact synchronized.holder other otherInSync
      · intro other epoch otherCurrent
        simp only [State.goto, Function.update_apply] at otherCurrent
        split at otherCurrent
        · have held :=
            synchronized.current thread currentGlobal (by rw [atPc]; rfl)
          cases otherCurrent
          rw [held]
          rfl
        · rename_i notThread
          have otherInside := Pc.inSync_of_currentGlobal otherCurrent
          exact absurd (synchronized.eq_of_inSync otherInside inside) notThread
  | unlock atPc =>
      have inside : (before.pc thread).inSync = true := stay _ atPc rfl
      have outside : ∀ other,
          other ≠ thread → (before.pc other).inSync = false := by
        intro other notThread
        cases otherInside : (before.pc other).inSync with
        | false => rfl
        | true =>
            exact absurd (synchronized.eq_of_inSync otherInside inside)
              notThread
      constructor
      · intro other otherInSync
        simp only [State.goto, Function.update_apply] at otherInSync
        split at otherInSync
        · cases otherInSync
        · rename_i notThread
          simp [outside other notThread] at otherInSync
      · intro other epoch otherCurrent
        simp only [State.goto, Function.update_apply] at otherCurrent
        split at otherCurrent
        · cases otherCurrent
        · rename_i notThread
          have := Pc.inSync_of_currentGlobal otherCurrent
          simp [outside other notThread] at this
  | loadGlobal atPc =>
      refine synchronized.plain thread _ rfl rfl rfl
        (fun _ => stay _ atPc rfl) ?_
      intro epoch equal
      exact .inr (Option.some.inj equal).symm
  | _ =>
      refine synchronized.plain thread _ rfl rfl rfl ?_ ?_ <;>
        simp_all [Pc.inSync, Pc.currentGlobal]

end Synchronized

/-- The mutex keeps reclaimers apart in every reachable state. -/
theorem Reachable.synchronized
    {state : State Value}
    (reachable : Reachable isPtr state) :
    Synchronized state := by
  refine TransitionSystem.Reachable.invariant ?_ ?_ reachable
  · rintro state rfl
    exact Synchronized.initial
  · intro before after _ synchronized step
    cases step with
    | register thread step => exact synchronized.registerStep step
    | critical thread step => exact synchronized.sectionStep step
    | retire thread step => exact synchronized.retireStep step
    | sync thread step => exact synchronized.syncStep step

end Ebr
end Runtime
end ClojureRt
