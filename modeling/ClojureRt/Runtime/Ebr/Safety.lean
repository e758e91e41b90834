import ClojureRt.Runtime.Ebr.Ownership
import Mathlib.Order.Nat

/-!
# Reclamation is safe

While a thread stays in a critical section, the global epoch advances at most
once past the epoch `e` at which the section began.  An advance needs a scan
that passes the record of the thread, and a scan made after the section began
passes it only in an epoch the thread has published, which is at most `e`; a
scan that was past the record earlier advances out of an epoch that is at most
`e` as well. A value retired after the section began carries an epoch of at
least `e`, so it never is two epochs old.  This does not need the published
epoch to be current: a thread that was overtaken between its load and its store
publishes a stale epoch, which only blocks advances.
-/

namespace ClojureRt
namespace Runtime
namespace Ebr

variable {Value : Type*} {isPtr : Value → Bool}

/-! ## Threads in a section -/

/-- Code that a thread in a critical section does not run. -/
def Pc.outside : Pc Value → Bool
  | .registerScan _ => true
  | .registerClaim _ _ => true
  | .registerStoreActive _ => true
  | .registerStoreEpoch _ => true
  | .registerLoadHead _ => true
  | .registerPush _ _ => true
  | .unregisterStoreTerminated => true
  | .enterStoreActive _ => true
  | .enterStoreEpoch _ => true
  | _ => false

/-- The epoch a thread has loaded and is about to publish. -/
def Pc.loadedEpoch : Pc Value → Option Nat
  | .enterStoreActive current => some current
  | .enterStoreEpoch current => some current
  | .flushStoreEpoch current => some current
  | _ => none

/-- The thread has published that it is active. -/
def PublishedActive
    (state : State Value)
    (thread : Thread)
    (epochAllowed : Nat → Prop) : Prop :=
  ∃ record found, state.threadState thread = some record ∧
    state.record record = some found ∧ found.active = true ∧
    epochAllowed found.localEpoch

/-- What a section of one thread guarantees. -/
structure ThreadSection (state : State Value) (thread : Thread) : Prop where
  inside : ∀ began, state.criticalSection thread = some began →
    (state.pc thread).outside = false
  active : ∀ time epoch, state.criticalSection thread = some (time, epoch) →
    PublishedActive state thread (· ≤ epoch)
  entering : ∀ current, state.pc thread = .enterStoreEpoch current →
    PublishedActive state thread fun _ => True
  loaded : ∀ epoch, (state.pc thread).loadedEpoch = some epoch →
    epoch ≤ state.globalEpoch
  began : ∀ time epoch, state.criticalSection thread = some (time, epoch) →
    time < state.clock ∧ epoch ≤ state.globalEpoch

namespace ThreadSection

/-- Facts about a thread survive steps that do not touch the thread. -/
theorem frame
    {before after : State Value}
    (facts : ThreadSection before thread)
    (pcEqual : after.pc thread = before.pc thread)
    (sectionEqual : after.criticalSection thread =
      before.criticalSection thread)
    (threadStateEqual : after.threadState thread = before.threadState thread)
    (recordEqual : ∀ record, before.threadState thread = some record →
      after.record record = before.record record)
    (epochLe : before.globalEpoch ≤ after.globalEpoch)
    (clockLe : before.clock ≤ after.clock) :
    ThreadSection after thread := by
  have published : ∀ allowed, PublishedActive before thread allowed →
      PublishedActive after thread allowed := by
    rintro allowed ⟨record, found, registered, foundEqual, rest⟩
    exact ⟨record, found, threadStateEqual ▸ registered,
      (recordEqual record registered).trans foundEqual, rest⟩
  refine ⟨?_, ?_, ?_, ?_, ?_⟩
  · rw [pcEqual, sectionEqual]
    exact facts.inside
  · rw [sectionEqual]
    exact fun time epoch equal => published _ (facts.active time epoch equal)
  · rw [pcEqual]
    exact fun current equal => published _ (facts.entering current equal)
  · rw [pcEqual]
    exact fun epoch equal => (facts.loaded epoch equal).trans epochLe
  · rw [sectionEqual]
    intro time epoch equal
    obtain ⟨timeLt, epochLe'⟩ := facts.began time epoch equal
    exact ⟨timeLt.trans_le clockLe, epochLe'.trans epochLe⟩

/-- A thread in no section that is not about to enter one. -/
theorem of_none
    {state : State Value}
    (noSection : state.criticalSection thread = none)
    (notEntering : ∀ current, state.pc thread ≠ .enterStoreEpoch current)
    (loaded : ∀ epoch, (state.pc thread).loadedEpoch = some epoch →
      epoch ≤ state.globalEpoch) :
    ThreadSection state thread := by
  refine ⟨?_, ?_, fun current equal => absurd equal (notEntering current),
    loaded, ?_⟩ <;>
    simp [noSection]

/-- Outside code runs in no section. -/
theorem section_eq_none
    {state : State Value}
    (facts : ThreadSection state thread)
    (outside : (state.pc thread).outside = true) :
    state.criticalSection thread = none := by
  cases equal : state.criticalSection thread with
  | none => rfl
  | some began =>
      have inside := facts.inside began equal
      rw [outside] at inside
      cases inside

end ThreadSection

/-- The facts about every thread. -/
def Sections (state : State Value) : Prop :=
  ∀ thread, ThreadSection state thread

namespace Sections

theorem initial : Sections (State.initial : State Value) := by
  intro thread
  refine ThreadSection.of_none rfl ?_ ?_ <;>
    simp [State.initial, Pc.loadedEpoch]

/-- A step of one thread that writes at most records no other thread owns. -/
theorem step
    {before after : State Value}
    (sections : Sections before)
    (thread : Thread)
    (own : ThreadSection after thread)
    (pcOther : ∀ other, other ≠ thread → after.pc other = before.pc other)
    (sectionOther : ∀ other, other ≠ thread →
      after.criticalSection other = before.criticalSection other)
    (threadStateOther : ∀ other, other ≠ thread →
      after.threadState other = before.threadState other)
    (recordOther : ∀ other record, other ≠ thread →
      before.threadState other = some record →
      after.record record = before.record record)
    (epochLe : before.globalEpoch ≤ after.globalEpoch)
    (clockLe : before.clock ≤ after.clock) :
    Sections after := by
  intro other
  by_cases isThread : other = thread
  · exact isThread ▸ own
  · exact (sections other).frame (pcOther other isThread)
      (sectionOther other isThread) (threadStateOther other isThread)
      (fun record registered => recordOther other record isThread registered)
      epochLe clockLe

/-- A step of code that neither registers nor enters nor leaves a section. -/
theorem plain
    {before after : State Value}
    (sections : Sections before)
    (thread : Thread)
    (pc : Pc Value)
    (pcEqual : after.pc = Function.update before.pc thread pc)
    (sectionEqual : after.criticalSection = before.criticalSection)
    (threadStateEqual : after.threadState = before.threadState)
    (recordEqual : after.record = before.record)
    (epochLe : before.globalEpoch ≤ after.globalEpoch)
    (clockLe : before.clock ≤ after.clock)
    (inside : pc.outside = false)
    (loaded : ∀ epoch, pc.loadedEpoch = some epoch →
      epoch ≤ after.globalEpoch) :
    Sections after := by
  refine sections.step thread ?_ ?_ ?_ ?_ ?_ epochLe clockLe
  · have facts := sections thread
    have pcThread : after.pc thread = pc := by
      rw [pcEqual, Function.update_self]
    refine ⟨?_, ?_, ?_, ?_, ?_⟩
    · rw [pcThread]
      exact fun _ _ => inside
    · simp only [PublishedActive, sectionEqual, threadStateEqual, recordEqual]
      exact facts.active
    · rw [pcThread]
      rintro current rfl
      cases inside
    · rw [pcThread]
      exact loaded
    · rw [sectionEqual]
      intro time epoch equal
      obtain ⟨timeLt, epochLe'⟩ := facts.began time epoch equal
      exact ⟨timeLt.trans_le clockLe, epochLe'.trans epochLe⟩
  · intro other notThread
    rw [pcEqual, Function.update_of_ne notThread]
  · simp [sectionEqual]
  · simp [threadStateEqual]
  · simp [recordEqual]

/-- A step of outside code that writes only records no other thread owns. -/
theorem outsideStep
    {before after : State Value}
    (sections : Sections before)
    (thread : Thread)
    (pc : Pc Value)
    (pcEqual : after.pc = Function.update before.pc thread pc)
    (sectionOther : ∀ other, other ≠ thread →
      after.criticalSection other = before.criticalSection other)
    (threadStateOther : ∀ other, other ≠ thread →
      after.threadState other = before.threadState other)
    (recordOther : ∀ other record, other ≠ thread →
      before.threadState other = some record →
      after.record record = before.record record)
    (epochEqual : after.globalEpoch = before.globalEpoch)
    (clockLe : before.clock ≤ after.clock)
    (noSection : after.criticalSection thread = none)
    (notLoaded : pc.loadedEpoch = none) :
    Sections after := by
  have pcThread : after.pc thread = pc := by
    rw [pcEqual, Function.update_self]
  refine sections.step thread ?_ ?_ sectionOther threadStateOther recordOther
    epochEqual.ge clockLe
  · refine ThreadSection.of_none noSection ?_ ?_
    · rintro current equal
      rw [pcThread] at equal
      rw [equal] at notLoaded
      cases notLoaded
    · intro epoch equal
      rw [pcThread, notLoaded] at equal
      cases equal
  · intro other notThread
    rw [pcEqual, Function.update_of_ne notThread]

/-- Writing one record leaves the records that other threads own alone. -/
theorem record_other
    {state : State Value}
    {written : ThreadState}
    (free : ∀ other, other ≠ thread → ¬ Owns state other record) :
    ∀ other someRecord,
      other ≠ thread → state.threadState other = some someRecord →
      (state.setRecord record written).record someRecord =
      state.record someRecord := by
  intro other someRecord notThread registered
  refine Function.update_of_ne ?_ _ _
  rintro rfl
  exact free other notThread (.inl registered)

theorem registerStep
    {before after : State Value}
    (sections : Sections before)
    (ownership : Ownership before)
    (step : RegisterStep thread before after) :
    Sections after := by
  have noSection : (before.pc thread).outside = true →
      before.criticalSection thread = none := (sections thread).section_eq_none
  have owned : ∀ record, Owns before thread record →
      ∀ other, other ≠ thread → ¬ Owns before other record :=
    fun record owns other notThread otherOwns =>
      notThread (ownership.unique _ _ _ otherOwns owns)
  have changed : ∀ record, ∀ other, other ≠ thread →
      Function.update before.threadState thread record other =
        before.threadState other :=
    fun record other notThread => Function.update_of_ne notThread _ _
  cases step with
  | loadHead atIdle unregistered =>
      have outside : before.criticalSection thread = none := by
        cases equal : before.criticalSection thread with
        | none => rfl
        | some began =>
            obtain ⟨record, found, registered, -⟩ :=
              (sections thread).active began.1 began.2 equal
            rw [unregistered] at registered
            cases registered
      exact sections.outsideStep thread _ rfl (fun _ _ => rfl) (fun _ _ => rfl)
        (fun _ _ _ _ => rfl) rfl (Nat.le_succ _) outside rfl
  | loadTerminated record todo found atScan foundEqual =>
      refine sections.outsideStep thread _ rfl (fun _ _ => rfl) (fun _ _ => rfl)
        (fun _ _ _ _ => rfl) rfl (Nat.le_succ _)
        (noSection (by rw [atScan]; rfl)) ?_
      split <;> rfl
  | claim record todo found atClaim foundEqual terminated =>
      have free : ∀ other, other ≠ thread → ¬ Owns before other record := by
        intro other _ owns
        obtain ⟨live, liveEqual, notTerminated⟩ :=
          ownership.live other record owns
        rw [foundEqual] at liveEqual
        cases liveEqual
        simp [terminated] at notTerminated
      exact sections.outsideStep thread _ rfl (fun _ _ => rfl) (fun _ _ => rfl)
        (record_other free) rfl (Nat.le_succ _)
        (noSection (by rw [atClaim]; rfl)) rfl
  | claimFailed record todo found atClaim =>
      exact sections.outsideStep thread _ rfl (fun _ _ => rfl) (fun _ _ => rfl)
        (fun _ _ _ _ => rfl) rfl (Nat.le_succ _)
        (noSection (by rw [atClaim]; rfl)) rfl
  | storeActive record found atStore =>
      have free := owned record (.inr (by rw [atStore]; rfl))
      exact sections.outsideStep thread _ rfl (fun _ _ => rfl) (fun _ _ => rfl)
        (record_other free) rfl (Nat.le_succ _)
        (noSection (by rw [atStore]; rfl)) rfl
  | storeEpoch record found atStore =>
      have free := owned record (.inr (by rw [atStore]; rfl))
      exact sections.outsideStep thread _ rfl (fun _ _ => rfl) (changed _)
        (record_other free) rfl (Nat.le_succ _)
        (noSection (by rw [atStore]; rfl)) rfl
  | allocate record atScan unallocated =>
      have free : ∀ other, other ≠ thread → ¬ Owns before other record := by
        intro other _ owns
        obtain ⟨live, liveEqual, -⟩ := ownership.live other record owns
        rw [unallocated] at liveEqual
        cases liveEqual
      exact sections.outsideStep thread _ rfl (fun _ _ => rfl) (fun _ _ => rfl)
        (record_other free) rfl (Nat.le_succ _)
        (noSection (by rw [atScan]; rfl)) rfl
  | loadOldHead record atLoad =>
      exact sections.outsideStep thread _ rfl (fun _ _ => rfl) (fun _ _ => rfl)
        (fun _ _ _ _ => rfl) rfl (Nat.le_succ _)
        (noSection (by rw [atLoad]; rfl)) rfl
  | push record oldHead atPush =>
      exact sections.outsideStep thread _ rfl (fun _ _ => rfl) (changed _)
        (fun _ _ _ _ => rfl) rfl (Nat.le_succ _)
        (noSection (by rw [atPush]; rfl)) rfl
  | pushFailed record oldHead atPush =>
      exact sections.outsideStep thread _ rfl (fun _ _ => rfl) (fun _ _ => rfl)
        (fun _ _ _ _ => rfl) rfl (Nat.le_succ _)
        (noSection (by rw [atPush]; rfl)) rfl
  | unregisterStoreActive record found atIdle registered =>
      have free := owned record (.inl registered)
      refine sections.outsideStep thread _ rfl ?_ (fun _ _ => rfl)
        (record_other free) rfl (Nat.le_succ _) (Function.update_self ..) rfl
      exact fun other notThread => Function.update_of_ne notThread _ _
  | unregisterStoreTerminated record found atStore registered =>
      have free := owned record (.inl registered)
      exact sections.outsideStep thread _ rfl (fun _ _ => rfl) (changed _)
        (record_other free) rfl (Nat.le_succ _)
        (noSection (by rw [atStore]; rfl)) rfl

/-- The moment a thread publishes the epoch it loaded, a section begins. -/
theorem begin
    {before : State Value}
    {found : ThreadState}
    (sections : Sections before)
    (free : ∀ other, other ≠ thread → ¬ Owns before other record)
    (registered : before.threadState thread = some record)
    (active : found.active = true)
    (loaded : (before.pc thread).loadedEpoch = some current) :
    Sections (((before.setRecord record
      { found with localEpoch := current }).beginSection thread).goto thread
        .idle) := by
  refine sections.step thread ?_ ?_ ?_ (fun _ _ => rfl)
    (record_other free) le_rfl (Nat.le_succ _)
  · have currentLe := (sections thread).loaded current loaded
    refine ⟨?_, ?_, ?_, ?_, ?_⟩
    · simp [State.goto, Pc.outside]
    · intro time epoch equal
      have epochEqual : before.globalEpoch = epoch := by
        simp only [State.goto, State.beginSection, Function.update_self,
          Option.some.injEq, Prod.mk.injEq] at equal
        exact equal.2
      exact ⟨record, _, registered, Function.update_self .., active,
        epochEqual ▸ currentLe⟩
    · simp [State.goto]
    · simp [State.goto, Pc.loadedEpoch]
    · intro time epoch equal
      simp only [State.goto, State.beginSection, Function.update_self,
        Option.some.injEq, Prod.mk.injEq] at equal
      obtain ⟨rfl, rfl⟩ := equal
      exact ⟨Nat.lt_succ_self _, le_rfl⟩
  · exact fun other notThread => Function.update_of_ne notThread _ _
  · exact fun other notThread => Function.update_of_ne notThread _ _

theorem sectionStep
    {before after : State Value}
    (sections : Sections before)
    (ownership : Ownership before)
    (step : SectionStep thread before after) :
    Sections after := by
  have owned : ∀ record, before.threadState thread = some record →
      ∀ other, other ≠ thread → ¬ Owns before other record :=
    fun record registered other notThread otherOwns =>
      notThread (ownership.unique _ _ _ otherOwns (.inl registered))
  have pcOther : ∀ pc : Pc Value, ∀ other, other ≠ thread →
      Function.update before.pc thread pc other = before.pc other :=
    fun pc other notThread => Function.update_of_ne notThread _ _
  cases step with
  | enterLoadEpoch record atIdle registered noSection =>
      refine sections.step thread ?_ (pcOther _) (fun _ _ => rfl)
        (fun _ _ => rfl) (fun _ _ _ _ => rfl) le_rfl (Nat.le_succ _)
      refine ThreadSection.of_none noSection ?_ ?_
      · simp [State.goto]
      · intro epoch equal
        simp only [State.goto, Function.update_self, Pc.loadedEpoch,
          Option.some.injEq] at equal
        exact equal.ge
  | enterStoreActive current record found atPc registered foundEqual =>
      have noSection := (sections thread).section_eq_none (by rw [atPc]; rfl)
      have currentLe := (sections thread).loaded current (by rw [atPc]; rfl)
      refine sections.step thread ?_ (pcOther _) (fun _ _ => rfl)
        (fun _ _ => rfl)
        (record_other (owned record registered)) le_rfl (Nat.le_succ _)
      refine ⟨?_, ?_, ?_, ?_, ?_⟩
      · simp [State.goto, State.setRecord, noSection]
      · simp [State.goto, State.setRecord, noSection]
      · exact fun _ _ =>
          ⟨record, _, registered, Function.update_self .., rfl, trivial⟩
      · intro epoch equal
        simp only [State.goto, Function.update_self, Pc.loadedEpoch,
          Option.some.injEq] at equal
        exact equal ▸ currentLe
      · simp [State.goto, State.setRecord, noSection]
  | enterStoreEpoch current record found atPc registered foundEqual =>
      obtain ⟨activeRecord, activeFound, activeRegistered, activeEqual,
          active, -⟩ :=
        (sections thread).entering current atPc
      obtain rfl : activeRecord = record := by
        rw [registered] at activeRegistered
        exact (Option.some.inj activeRegistered).symm
      obtain rfl : activeFound = found := by
        rw [foundEqual] at activeEqual
        exact (Option.some.inj activeEqual).symm
      exact sections.begin (owned _ registered) registered active
        (by rw [atPc]; rfl)
  | flushLoadEpoch record atIdle registered =>
      refine sections.plain thread _ rfl rfl rfl rfl le_rfl
        (Nat.le_succ _) rfl ?_
      intro epoch equal
      simp only [Pc.loadedEpoch, Option.some.injEq] at equal
      exact equal.ge
  | flushStoreEpoch current record found atPc registered foundEqual inSection =>
      obtain ⟨⟨time, epoch⟩, sectionEqual⟩ :=
        Option.ne_none_iff_exists'.mp inSection
      obtain ⟨activeRecord, activeFound, activeRegistered, activeEqual,
          active, -⟩ :=
        (sections thread).active time epoch sectionEqual
      obtain rfl : activeRecord = record := by
        rw [registered] at activeRegistered
        exact (Option.some.inj activeRegistered).symm
      obtain rfl : activeFound = found := by
        rw [foundEqual] at activeEqual
        exact (Option.some.inj activeEqual).symm
      exact sections.begin (owned _ registered) registered active
        (by rw [atPc]; rfl)
  | flushStoreEpochOutside current record found atPc registered foundEqual
      noSection =>
      exact sections.outsideStep thread _ rfl (fun _ _ => rfl) (fun _ _ => rfl)
        (record_other (owned record registered)) rfl (Nat.le_succ _)
        noSection rfl
  | leave record found atPc registered foundEqual =>
      refine sections.outsideStep thread _ rfl ?_ (fun _ _ => rfl)
        (record_other (owned record registered)) rfl (Nat.le_succ _)
        (Function.update_self ..) rfl
      exact fun other notThread => Function.update_of_ne notThread _ _
  | unlink value atIdle =>
      exact sections.plain thread _ rfl rfl rfl rfl le_rfl (Nat.le_succ _) rfl
        (by simp [Pc.loadedEpoch])

theorem retireStep
    {before after : State Value}
    (sections : Sections before)
    (step : RetireStep isPtr thread before after) :
    Sections after := by
  cases step <;>
    exact sections.plain thread _ rfl rfl rfl rfl le_rfl (Nat.le_succ _) rfl
      (by simp [Pc.loadedEpoch])

theorem syncStep
    {before after : State Value}
    (sections : Sections before)
    (step : SyncStep thread before after) :
    Sections after := by
  cases step with
  | loadActive =>
      refine sections.plain thread _ rfl rfl rfl rfl le_rfl (Nat.le_succ _)
        ?_ ?_ <;> split <;> simp [Pc.outside, Pc.loadedEpoch]
  | loadLocalEpoch =>
      refine sections.plain thread _ rfl rfl rfl rfl le_rfl (Nat.le_succ _)
        ?_ ?_ <;> split <;> simp [Pc.outside, Pc.loadedEpoch]
  | advance =>
      exact sections.plain thread _ rfl rfl rfl rfl (Nat.le_succ _)
        (Nat.le_succ _) rfl (by simp [Pc.loadedEpoch])
  | _ =>
      exact sections.plain thread _ rfl rfl rfl rfl le_rfl (Nat.le_succ _) rfl
        (by simp [Pc.loadedEpoch])

end Sections

/-- By induction on the run. -/
theorem Reachable.sections
    {state : State Value}
    (reachable : Reachable isPtr state) :
    Sections state := by
  refine TransitionSystem.Reachable.invariant ?_ ?_ reachable
  · rintro state rfl
    exact Sections.initial
  · intro before after reachedBefore sections step
    have ownership := Reachable.ownership reachedBefore
    cases step with
    | register thread step => exact sections.registerStep ownership step
    | critical thread step => exact sections.sectionStep ownership step
    | retire thread step => exact sections.retireStep step
    | sync thread step => exact sections.syncStep step

/-! ## The epoch during a section -/

/-- The records a scan that may still advance has not passed yet. -/
def Pc.unscanned : Pc Value → Option (Nat × List Address)
  | .syncScan currentGlobal todo => some (currentGlobal, todo)
  | .syncLoadEpoch currentGlobal record todo =>
      some (currentGlobal, record :: todo)
  | .syncAdvance currentGlobal => some (currentGlobal, [])
  | _ => none

/-- While slots are scanned the epoch is known. -/
theorem Pc.currentGlobal_of_unscanned
    {pc : Pc Value}
    (equal : pc.unscanned = some (epoch, todo)) :
    pc.currentGlobal = some epoch := by
  cases pc <;> simp_all [Pc.unscanned, Pc.currentGlobal]

/-- A scan with epoch `epoch` and the records `todo` before it does not endanger
any thread in a section. -/
def ScanSafe (state : State Value) (epoch : Nat) (todo : List Address) : Prop :=
  ∀ thread time began record,
    state.criticalSection thread = some (time, began) →
    state.threadState thread = some record → record ∈ todo ∨ epoch ≤ began

/-- The epoch has advanced at most once since a section began, and no scan under
way can advance it again. -/
structure Bounded (state : State Value) : Prop where
  bounded : ∀ thread time began,
    state.criticalSection thread = some (time, began) →
    state.globalEpoch ≤ began + 1
  scanned : ∀ scanner epoch todo,
    (state.pc scanner).unscanned = some (epoch, todo) →
    ScanSafe state epoch todo

namespace Bounded

theorem initial : Bounded (State.initial : State Value) := by
  constructor <;> simp [State.initial, Pc.unscanned]

/-- A step after which every section is an old one. -/
theorem plain
    {before after : State Value}
    (bound : Bounded before)
    (thread : Thread)
    (pc : Pc Value)
    (pcEqual : after.pc = Function.update before.pc thread pc)
    (epochEqual : after.globalEpoch = before.globalEpoch)
    (sections : ∀ other began, after.criticalSection other = some began →
      before.criticalSection other = some began ∧
        after.threadState other = before.threadState other)
    (safe : ∀ epoch todo, pc.unscanned = some (epoch, todo) →
      ScanSafe before epoch todo) :
    Bounded after := by
  have kept : ∀ epoch todo, ScanSafe before epoch todo →
      ScanSafe after epoch todo := by
    intro epoch todo beforeSafe other time began record sectionEqual registered
    obtain ⟨oldSection, threadStateEqual⟩ := sections other _ sectionEqual
    exact beforeSafe other time began record oldSection
      (threadStateEqual ▸ registered)
  constructor
  · intro other time began sectionEqual
    rw [epochEqual]
    exact bound.bounded other time began (sections other _ sectionEqual).1
  · intro scanner epoch todo unscanned
    rw [pcEqual, Function.update_apply] at unscanned
    split at unscanned
    · exact kept epoch todo (safe epoch todo unscanned)
    · exact kept epoch todo (bound.scanned scanner epoch todo unscanned)

/-- A new section is safe from every scan: all scans hold the current epoch. -/
theorem begin
    {before : State Value}
    (bound : Bounded before)
    (synchronized : Synchronized before)
    (record : Address)
    (written : ThreadState) :
    Bounded (((before.setRecord record written).beginSection thread).goto
      thread .idle) := by
  have sectionEqual : ∀ other,
      (((before.setRecord record written).beginSection thread).goto
        thread .idle).criticalSection other =
        if other = thread then some (before.clock, before.globalEpoch)
        else before.criticalSection other :=
    fun other => Function.update_apply _ _ _ _
  constructor
  · intro other time began equal
    rw [sectionEqual] at equal
    split at equal
    · cases equal
      exact Nat.le_succ _
    · exact bound.bounded other time began equal
  · intro scanner epoch todo unscanned other time began someRecord equal registered
    have old : (before.pc scanner).unscanned = some (epoch, todo) := by
      simp only [State.goto, Function.update_apply] at unscanned
      split at unscanned
      · cases unscanned
      · exact unscanned
    rw [sectionEqual] at equal
    split at equal
    · cases equal
      right
      exact (synchronized.current scanner epoch
        (Pc.currentGlobal_of_unscanned old)).le
    · exact bound.scanned scanner epoch todo old other time began someRecord
        equal registered

theorem registerStep
    {before after : State Value}
    (bound : Bounded before)
    (sections : Sections before)
    (step : RegisterStep thread before after) :
    Bounded after := by
  have noSection : (before.pc thread).outside = true →
      before.criticalSection thread = none := (sections thread).section_eq_none
  -- A thread that changes its registration is in no section.
  have changed : ∀ (threadState : Thread → Option Address),
      (before.pc thread).outside = true →
      (∀ other, other ≠ thread → threadState other = before.threadState other) →
      ∀ other began, before.criticalSection other = some began →
        before.criticalSection other = some began ∧
          threadState other = before.threadState other := by
    intro threadState outside same other began equal
    refine ⟨equal, same other ?_⟩
    rintro rfl
    rw [noSection outside] at equal
    cases equal
  cases step with
  | loadTerminated record todo found =>
      refine bound.plain thread _ rfl rfl (fun _ _ equal => ⟨equal, rfl⟩) ?_
      cases found.terminated <;> simp [Pc.unscanned]
  | storeEpoch record found atStore =>
      refine bound.plain thread _ rfl rfl ?_ (by simp [Pc.unscanned])
      exact changed _ (by rw [atStore]; rfl)
        fun other notThread => Function.update_of_ne notThread _ _
  | push record oldHead atPush =>
      refine bound.plain thread _ rfl rfl ?_ (by simp [Pc.unscanned])
      exact changed _ (by rw [atPush]; rfl)
        fun other notThread => Function.update_of_ne notThread _ _
  | unregisterStoreActive record found atIdle registered =>
      refine bound.plain thread _ rfl rfl ?_ (by simp [Pc.unscanned])
      intro other began equal
      simp only [State.goto, State.endSection, Function.update_apply] at equal
      split at equal
      · cases equal
      · exact ⟨equal, rfl⟩
  | unregisterStoreTerminated record found atStore registered =>
      refine bound.plain thread _ rfl rfl ?_ (by simp [Pc.unscanned])
      exact changed _ (by rw [atStore]; rfl)
        fun other notThread => Function.update_of_ne notThread _ _
  | _ =>
      exact bound.plain thread _ rfl rfl (fun _ _ equal => ⟨equal, rfl⟩)
        (by simp [Pc.unscanned])

theorem sectionStep
    {before after : State Value}
    (bound : Bounded before)
    (synchronized : Synchronized before)
    (step : SectionStep thread before after) :
    Bounded after := by
  cases step with
  | enterStoreEpoch current record found =>
      exact bound.begin synchronized record _
  | flushStoreEpoch current record found =>
      exact bound.begin synchronized record _
  | leave record found =>
      refine bound.plain thread _ rfl rfl ?_ (by simp [Pc.unscanned])
      intro other began equal
      simp only [State.goto, State.endSection, Function.update_apply] at equal
      split at equal
      · cases equal
      · exact ⟨equal, rfl⟩
  | _ =>
      exact bound.plain thread _ rfl rfl (fun _ _ equal => ⟨equal, rfl⟩)
        (by simp [Pc.unscanned])

theorem retireStep
    {before after : State Value}
    (bound : Bounded before)
    (step : RetireStep isPtr thread before after) :
    Bounded after := by
  cases step <;>
    exact bound.plain thread _ rfl rfl (fun _ _ equal => ⟨equal, rfl⟩)
      (by simp [Pc.unscanned])

theorem syncStep
    {before after : State Value}
    (bound : Bounded before)
    (ownership : Ownership before)
    (synchronized : Synchronized before)
    (sections : Sections before)
    (step : SyncStep thread before after) :
    Bounded after := by
  have same : ∀ other began, before.criticalSection other = some began →
      before.criticalSection other = some began ∧
        before.threadState other = before.threadState other :=
    fun _ _ equal => ⟨equal, rfl⟩
  cases step with
  | loadRegistry currentGlobal atPc =>
      refine bound.plain thread _ rfl rfl same ?_
      intro epoch todo unscanned other time began record sectionEqual registered
      cases unscanned
      exact .inl (ownership.registered other record registered)
  | scanDone currentGlobal atPc =>
      refine bound.plain thread _ rfl rfl same ?_
      intro epoch todo unscanned
      cases unscanned
      exact bound.scanned thread currentGlobal [] (by rw [atPc]; rfl)
  | loadActive currentGlobal record todo found atPc foundEqual =>
      refine bound.plain thread _ rfl rfl same ?_
      have unpassed := bound.scanned thread currentGlobal (record :: todo)
        (by rw [atPc]; rfl)
      intro epoch rest unscanned
      cases active : found.active with
      | true =>
          rw [active] at unscanned
          cases unscanned
          exact unpassed
      | false =>
          rw [active] at unscanned
          cases unscanned
          intro other time began otherRecord sectionEqual registered
          rcases unpassed other time began otherRecord sectionEqual
            registered with
            member | le
          · -- The record just passed is not active, so it is not the thread's.
            obtain ⟨activeRecord, activeFound, activeRegistered, activeEqual,
                isActive, -⟩ :=
              (sections other).active time began sectionEqual
            obtain rfl : activeRecord = otherRecord := by
              rw [registered] at activeRegistered
              exact (Option.some.inj activeRegistered).symm
            refine .inl ((List.mem_cons.mp member).resolve_left ?_)
            rintro rfl
            rw [foundEqual] at activeEqual
            cases activeEqual
            rw [active] at isActive
            cases isActive
          · exact .inr le
  | loadLocalEpoch currentGlobal record todo found atPc foundEqual =>
      refine bound.plain thread _ rfl rfl same ?_
      have unpassed := bound.scanned thread currentGlobal (record :: todo)
        (by rw [atPc]; rfl)
      intro epoch rest unscanned
      split at unscanned
      · cases unscanned
      · rename_i epochMatches
        cases unscanned
        intro other time began otherRecord sectionEqual registered
        rcases unpassed other time began otherRecord sectionEqual
          registered with
          member | le
        · rcases List.mem_cons.mp member with isRecord | inRest
          · -- The thread published this very epoch, which its section allows.
            subst isRecord
            obtain ⟨activeRecord, activeFound, activeRegistered, activeEqual, -,
                allowed⟩ :=
              (sections other).active time began sectionEqual
            obtain rfl : activeRecord = otherRecord := by
              rw [registered] at activeRegistered
              exact (Option.some.inj activeRegistered).symm
            rw [foundEqual] at activeEqual
            cases activeEqual
            right
            rwa [not_not.mp epochMatches] at allowed
          · exact .inl inRest
        · exact .inr le
  | advance currentGlobal atPc =>
      have current :=
        synchronized.current thread currentGlobal (by rw [atPc]; rfl)
      have passed := bound.scanned thread currentGlobal [] (by rw [atPc]; rfl)
      have inside : (before.pc thread).inSync = true := by rw [atPc]; rfl
      constructor
      · intro other time began sectionEqual
        obtain ⟨record, found, registered, -⟩ :=
          (sections other).active time began sectionEqual
        rcases passed other time began record sectionEqual
          registered with none | le
        · cases none
        · simp only [State.goto]
          omega
      · intro scanner epoch todo unscanned
        simp only [State.goto, Function.update_apply] at unscanned
        split at unscanned
        · cases unscanned
        · rename_i notThread
          have scannerInside :=
            Pc.inSync_of_currentGlobal (Pc.currentGlobal_of_unscanned unscanned)
          exact absurd (synchronized.eq_of_inSync scannerInside inside)
            notThread
  | _ => exact bound.plain thread _ rfl rfl same (by simp [Pc.unscanned])

end Bounded

/-- By induction on the run. -/
theorem Reachable.bounded
    {state : State Value}
    (reachable : Reachable isPtr state) :
    Bounded state := by
  refine TransitionSystem.Reachable.invariant ?_ ?_ reachable
  · rintro state rfl
    exact Bounded.initial
  · intro before after reachedBefore bound step
    have synchronized := Reachable.synchronized reachedBefore
    have sections := Reachable.sections reachedBefore
    cases step with
    | register thread step => exact bound.registerStep sections step
    | critical thread step => exact bound.sectionStep synchronized step
    | retire thread step => exact bound.retireStep step
    | sync thread step =>
        exact bound.syncStep (Reachable.ownership reachedBefore) synchronized
          sections step

/-! ## Retired values -/

/-- Values retired during a section carry its epoch, or a later one, and none of
them has been released. -/
structure Retained (state : State Value) : Prop where
  calledLoading : ∀ thread call, state.pc thread = .retireLoadEpoch call →
    call.calledAt < state.clock
  calledRetired : ∀ address object, state.retired address = some object →
    object.call.calledAt < state.clock
  calledReleased : ∀ call ∈ state.released, call.calledAt < state.clock
  notAhead : ∀ address object, state.retired address = some object →
    object.epochRetired ≤ state.globalEpoch
  epoch : ∀ address object thread time began,
    state.retired address = some object →
    state.criticalSection thread = some (time, began) →
    time < object.call.calledAt → began ≤ object.epochRetired
  notReleased : ∀ call ∈ state.released, ∀ thread time began,
    state.criticalSection thread = some (time, began) → call.calledAt ≤ time

namespace Retained

theorem initial : Retained (State.initial : State Value) := by
  constructor <;> simp [State.initial]

/-- A step that releases nothing, retires nothing new and begins no section. -/
theorem plain
    {before after : State Value}
    (retained : Retained before)
    (thread : Thread)
    (pc : Pc Value)
    (pcEqual : after.pc = Function.update before.pc thread pc)
    (clockEqual : after.clock = before.clock + 1)
    (releasedEqual : after.released = before.released)
    (epochMonotone : before.globalEpoch ≤ after.globalEpoch)
    (sections : ∀ other began, after.criticalSection other = some began →
      before.criticalSection other = some began)
    (retired : ∀ address object, after.retired address = some object →
      ∃ oldAddress oldObject, before.retired oldAddress = some oldObject ∧
        oldObject.call = object.call ∧
        oldObject.epochRetired = object.epochRetired)
    (loading : ∀ call, pc = .retireLoadEpoch call →
      call.calledAt < after.clock) :
    Retained after := by
  refine ⟨?_, ?_, ?_, ?_, ?_, ?_⟩
  · intro other call equal
    rw [pcEqual, Function.update_apply] at equal
    split at equal
    · exact loading call equal
    · have := retained.calledLoading other call equal
      omega
  · intro address object equal
    obtain ⟨oldAddress, oldObject, oldEqual, callEqual, -⟩ :=
      retired address object equal
    have := retained.calledRetired oldAddress oldObject oldEqual
    rw [callEqual] at this
    omega
  · intro call member
    rw [releasedEqual] at member
    have := retained.calledReleased call member
    omega
  · intro address object equal
    obtain ⟨oldAddress, oldObject, oldEqual, -, epochEqual⟩ :=
      retired address object equal
    rw [← epochEqual]
    exact (retained.notAhead oldAddress oldObject oldEqual).trans epochMonotone
  · intro address object other time began equal sectionEqual later
    obtain ⟨oldAddress, oldObject, oldEqual, callEqual, epochEqual⟩ :=
      retired address object equal
    rw [← epochEqual]
    exact retained.epoch oldAddress oldObject other time began oldEqual
      (sections other _ sectionEqual) (callEqual ▸ later)
  · intro call member other time began sectionEqual
    rw [releasedEqual] at member
    exact retained.notReleased call member other time began
      (sections other _ sectionEqual)

/-- Everything retired or released so far was called before a new section. -/
theorem begin
    {before : State Value}
    (retained : Retained before)
    (record : Address)
    (written : ThreadState) :
    Retained (((before.setRecord record written).beginSection thread).goto
      thread .idle) := by
  have sectionEqual : ∀ other,
      (((before.setRecord record written).beginSection thread).goto
        thread .idle).criticalSection other =
        if other = thread then some (before.clock, before.globalEpoch)
        else before.criticalSection other :=
    fun other => Function.update_apply _ _ _ _
  refine ⟨?_, ?_, ?_, ?_, ?_, ?_⟩
  · intro other call equal
    simp only [State.goto, Function.update_apply] at equal
    split at equal
    · cases equal
    · exact Nat.lt_succ_of_lt (retained.calledLoading other call equal)
  · intro address object equal
    exact Nat.lt_succ_of_lt (retained.calledRetired address object equal)
  · intro call member
    exact Nat.lt_succ_of_lt (retained.calledReleased call member)
  · exact retained.notAhead
  · intro address object other time began equal sectionAfter later
    rw [sectionEqual] at sectionAfter
    split at sectionAfter
    · cases sectionAfter
      have := retained.calledRetired address object equal
      omega
    · exact retained.epoch address object other time began equal
        sectionAfter later
  · intro call member other time began sectionAfter
    rw [sectionEqual] at sectionAfter
    split at sectionAfter
    · cases sectionAfter
      exact (retained.calledReleased call member).le
    · exact retained.notReleased call member other time began sectionAfter

theorem registerStep
    {before after : State Value}
    (retained : Retained before)
    (step : RegisterStep thread before after) :
    Retained after := by
  have sameRetired : ∀ address object, before.retired address = some object →
      ∃ oldAddress oldObject, before.retired oldAddress = some oldObject ∧
        oldObject.call = object.call ∧
        oldObject.epochRetired = object.epochRetired :=
    fun address object equal => ⟨address, object, equal, rfl, rfl⟩
  cases step with
  | loadTerminated record todo found =>
      refine retained.plain thread _ rfl rfl rfl le_rfl (fun _ _ equal => equal)
        sameRetired ?_
      cases found.terminated <;> simp
  | unregisterStoreActive record found =>
      refine retained.plain thread _ rfl rfl rfl le_rfl ?_ sameRetired (by simp)
      intro other began equal
      simp only [State.goto, State.endSection, Function.update_apply] at equal
      split at equal
      · cases equal
      · exact equal
  | _ =>
      exact retained.plain thread _ rfl rfl rfl le_rfl (fun _ _ equal => equal)
        sameRetired (by simp)

theorem sectionStep
    {before after : State Value}
    (retained : Retained before)
    (step : SectionStep thread before after) :
    Retained after := by
  have sameRetired : ∀ address object, before.retired address = some object →
      ∃ oldAddress oldObject, before.retired oldAddress = some oldObject ∧
        oldObject.call = object.call ∧
        oldObject.epochRetired = object.epochRetired :=
    fun address object equal => ⟨address, object, equal, rfl, rfl⟩
  cases step with
  | enterStoreEpoch current record found => exact retained.begin record _
  | flushStoreEpoch current record found => exact retained.begin record _
  | leave record found =>
      refine retained.plain thread _ rfl rfl rfl le_rfl ?_ sameRetired (by simp)
      intro other began equal
      simp only [State.goto, State.endSection, Function.update_apply] at equal
      split at equal
      · cases equal
      · exact equal
  | _ =>
      exact retained.plain thread _ rfl rfl rfl le_rfl (fun _ _ equal => equal)
        sameRetired (by simp)

/-- Relinking an object keeps its call and its epoch. -/
theorem retired_relink
    {state : State Value}
    {relinked : RetiredObject Value}
    (objectEqual : state.retired node = some object)
    (callEqual : relinked.call = object.call)
    (epochEqual : relinked.epochRetired = object.epochRetired) :
    ∀ address found,
      (state.setRetired node (some relinked)).retired address = some found →
      ∃ oldAddress oldObject, state.retired oldAddress = some oldObject ∧
        oldObject.call = found.call ∧
        oldObject.epochRetired = found.epochRetired := by
  intro address found equal
  simp only [State.setRetired, Function.update_apply] at equal
  split at equal
  · cases equal
    exact ⟨node, object, objectEqual, callEqual.symm, epochEqual.symm⟩
  · exact ⟨address, found, equal, rfl, rfl⟩

theorem retireStep
    {before after : State Value}
    (retained : Retained before)
    (sections : Sections before)
    (step : RetireStep isPtr thread before after) :
    Retained after := by
  have sameRetired : ∀ address object, before.retired address = some object →
      ∃ oldAddress oldObject, before.retired oldAddress = some oldObject ∧
        oldObject.call = object.call ∧
        oldObject.epochRetired = object.epochRetired :=
    fun address object equal => ⟨address, object, equal, rfl, rfl⟩
  cases step with
  | call value atIdle isPointer =>
      refine retained.plain thread _ rfl rfl rfl le_rfl (fun _ _ equal => equal)
        sameRetired ?_
      intro call equal
      cases equal
      exact Nat.lt_succ_self _
  | loadEpoch call node atPc unallocated =>
      have called := retained.calledLoading thread call atPc
      refine ⟨?_, ?_, ?_, ?_, ?_, ?_⟩
      · intro other otherCall equal
        simp only [State.goto, Function.update_apply] at equal
        split at equal
        · cases equal
        · exact Nat.lt_succ_of_lt (retained.calledLoading other otherCall equal)
      · intro address object equal
        simp only [State.goto, State.setRetired, Function.update_apply] at equal
        split at equal
        · cases equal
          exact Nat.lt_succ_of_lt called
        · exact Nat.lt_succ_of_lt (retained.calledRetired address object equal)
      · intro otherCall member
        exact Nat.lt_succ_of_lt (retained.calledReleased otherCall member)
      · intro address object equal
        simp only [State.goto, State.setRetired, Function.update_apply] at equal
        split at equal
        · cases equal
          exact le_rfl
        · exact retained.notAhead address object equal
      · intro address object other time began equal sectionEqual later
        simp only [State.goto, State.setRetired, Function.update_apply] at equal
        split at equal
        · cases equal
          exact ((sections other).began time began sectionEqual).2
        · exact retained.epoch address object other time began equal
            sectionEqual later
      · exact retained.notReleased
  | loadHead node object atPc objectEqual =>
      exact retained.plain thread _ rfl rfl rfl le_rfl (fun _ _ equal => equal)
        (retired_relink objectEqual rfl rfl) (by simp)
  | _ =>
      exact retained.plain thread _ rfl rfl rfl le_rfl (fun _ _ equal => equal)
        sameRetired (by simp)

theorem syncStep
    {before after : State Value}
    (retained : Retained before)
    (synchronized : Synchronized before)
    (bound : Bounded before)
    (step : SyncStep thread before after) :
    Retained after := by
  have sameRetired : ∀ address object, before.retired address = some object →
      ∃ oldAddress oldObject, before.retired oldAddress = some oldObject ∧
        oldObject.call = object.call ∧
        oldObject.epochRetired = object.epochRetired :=
    fun address object equal => ⟨address, object, equal, rfl, rfl⟩
  cases step with
  | loadActive currentGlobal record todo found =>
      refine retained.plain thread _ rfl rfl rfl le_rfl (fun _ _ equal => equal)
        sameRetired ?_
      cases found.active <;> simp
  | loadLocalEpoch currentGlobal record todo found =>
      refine retained.plain thread _ rfl rfl rfl le_rfl (fun _ _ equal => equal)
        sameRetired ?_
      split <;> simp
  | release currentGlobal cur toKeep object atPc objectEqual oldEnough =>
      have current :=
        synchronized.current thread currentGlobal (by rw [atPc]; rfl)
      refine ⟨?_, ?_, ?_, ?_, ?_, ?_⟩
      · intro other call equal
        simp only [State.goto, Function.update_apply] at equal
        split at equal
        · cases equal
        · exact Nat.lt_succ_of_lt (retained.calledLoading other call equal)
      · intro address found equal
        simp only [State.goto, State.setRetired, Function.update_apply] at equal
        split at equal
        · cases equal
        · exact Nat.lt_succ_of_lt (retained.calledRetired address found equal)
      · intro call member
        rcases List.mem_cons.mp member with rfl | old
        · exact Nat.lt_succ_of_lt
            (retained.calledRetired cur object objectEqual)
        · exact Nat.lt_succ_of_lt (retained.calledReleased call old)
      · intro address found equal
        simp only [State.goto, State.setRetired, Function.update_apply] at equal
        split at equal
        · cases equal
        · exact retained.notAhead address found equal
      · intro address found other time began equal sectionEqual later
        simp only [State.goto, State.setRetired, Function.update_apply] at equal
        split at equal
        · cases equal
        · exact retained.epoch address found other time began equal
            sectionEqual later
      · intro call member other time began sectionEqual
        rcases List.mem_cons.mp member with rfl | old
        · -- Retired during the section, the object would be two epochs old.
          by_contra later
          have recent := retained.epoch cur object other time began objectEqual
            sectionEqual (not_le.mp later)
          have close := bound.bounded other time began sectionEqual
          have notAhead := retained.notAhead cur object objectEqual
          rcases oldEnough with ahead | twoEpochs <;> omega
        · exact retained.notReleased call old other time began sectionEqual
  | keepFirst currentGlobal cur object atPc objectEqual =>
      exact retained.plain thread _ rfl rfl rfl le_rfl (fun _ _ equal => equal)
        (retired_relink objectEqual rfl rfl) (by simp)
  | keepLater currentGlobal cur toKeepHead toKeepTail object tailObject atPc
      objectEqual
      tailEqual =>
      refine retained.plain thread _ rfl rfl rfl le_rfl (fun _ _ equal => equal)
        ?_ (by simp)
      intro address found equal
      simp only [State.goto, State.setRetired, Function.update_apply] at equal
      split at equal
      · cases equal
        exact ⟨toKeepTail, tailObject, tailEqual, rfl, rfl⟩
      · split at equal
        · cases equal
          exact ⟨cur, object, objectEqual, rfl, rfl⟩
        · exact ⟨address, found, equal, rfl, rfl⟩
  | advance currentGlobal =>
      exact retained.plain thread _ rfl rfl rfl (Nat.le_succ _)
        (fun _ _ equal => equal) sameRetired (by simp)
  | loadPending toKeepHead toKeepTail tailObject atPc tailEqual =>
      exact retained.plain thread _ rfl rfl rfl le_rfl (fun _ _ equal => equal)
        (retired_relink tailEqual rfl rfl) (by simp)
  | _ =>
      exact retained.plain thread _ rfl rfl rfl le_rfl (fun _ _ equal => equal)
        sameRetired (by simp)

end Retained

/-- By induction on the run. -/
theorem Reachable.retained
    {state : State Value}
    (reachable : Reachable isPtr state) :
    Retained state := by
  refine TransitionSystem.Reachable.invariant ?_ ?_ reachable
  · rintro state rfl
    exact Retained.initial
  · intro before after reachedBefore retained step
    cases step with
    | register thread step => exact retained.registerStep step
    | critical thread step => exact retained.sectionStep step
    | retire thread step =>
        exact retained.retireStep (Reachable.sections reachedBefore) step
    | sync thread step =>
        exact retained.syncStep (Reachable.synchronized reachedBefore)
          (Reachable.bounded reachedBefore) step

/-! ## The safety theorem -/

/-- A thread that is inside a critical section it entered, or last flushed,
before a value was unlinked protects the value: no call of `autorelease` made
after the unlink has led to a release. -/
theorem not_released_during_section
    (state : State Value)
    (reachable : Reachable isPtr state)
    (thread : Thread)
    (enteredAt enteredEpoch : Nat)
    (inSection : state.criticalSection thread =
      some (enteredAt, enteredEpoch)) :
    ∀ value unlinkedAt, (value, unlinkedAt) ∈ state.unlinked →
      enteredAt < unlinkedAt →
      ∀ call ∈ state.released, call.value = value →
        ¬ unlinkedAt < call.calledAt := by
  intro value unlinkedAt _ enteredBefore call released _ retiredAfter
  have calledBefore :=
    (Reachable.retained reachable).notReleased call released thread enteredAt
      enteredEpoch inSection
  omega

/-- Thread `1` retires `false` and reclaims, which advances the epoch and keeps
`false`. Then thread `0` enters a section, and thread `1` retires `true`.  It
reclaims twice more: `false` is released, and `true` is kept. -/
theorem not_released_during_section_of_run :
    ∃ state : State Bool,
      Reachable (fun _ => true) state ∧
      state.criticalSection 0 = some (23, 1) ∧
      (true, 24) ∈ state.unlinked ∧
      (⟨true, 25⟩ : Call Bool) ∈ state.called ∧
      state.released = [⟨false, 5⟩] ∧
      state.globalEpoch = 2 ∧
      ∀ call ∈ state.released, call.value = true → ¬ 24 < call.calledAt := by
  have young : ¬ OldEnough 1 0 := by decide
  have younger : ¬ OldEnough 2 1 := by decide
  have old : OldEnough 2 0 := by decide
  have run : Reachable (fun _ => true) (State.initial : State Bool) :=
    TransitionSystem.Reachable.of_initial rfl
  have run := run.tail (.register 0 (.loadHead _ rfl rfl))
  have run := run.tail (.register 0 (.allocate _ 0 rfl rfl))
  have run := run.tail (.register 0 (.loadOldHead _ 0 rfl))
  have run := run.tail (.register 0 (.push _ 0 [] rfl rfl))
  -- `false` is retired in epoch 0
  have run := run.tail (.critical 1 (.unlink _ false rfl))
  have run := run.tail (.retire 1 (.call _ false rfl rfl))
  have run := run.tail (.retire 1 (.loadEpoch _ _ 0 rfl rfl))
  have run := run.tail (.retire 1 (.loadHead _ 0 _ rfl rfl))
  have run := run.tail (.retire 1 (.push _ 0 none rfl rfl))
  -- nobody is active, so the epoch advances to 1
  have run := run.tail (.sync 1 (.lock _ rfl rfl))
  have run := run.tail (.sync 1 (.loadGlobal _ rfl))
  have run := run.tail (.sync 1 (.loadRegistry _ 0 rfl))
  have run := run.tail (.sync 1 (.loadActive _ 0 0 [] _ rfl rfl))
  have run := run.tail (.sync 1 (.scanDone _ 0 rfl))
  have run := run.tail (.sync 1 (.advance _ 0 rfl))
  have run := run.tail (.sync 1 (.steal _ 1 rfl))
  have run := run.tail (.sync 1 (.keepFirst _ 1 0 _ rfl rfl young))
  have run := run.tail (.sync 1 (.loopDone _ 1 0 0 rfl))
  have run := run.tail (.sync 1 (.loadPending _ 0 0 _ rfl rfl))
  have run := run.tail (.sync 1 (.push _ 0 0 none rfl rfl))
  have run := run.tail (.sync 1 (.unlock _ rfl))
  have run := run.tail (.critical 0 (.enterLoadEpoch _ 0 rfl rfl rfl))
  have run := run.tail (.critical 0 (.enterStoreActive _ 1 0 _ rfl rfl rfl))
  have run := run.tail (.critical 0 (.enterStoreEpoch _ 1 0 _ rfl rfl rfl))
  -- `true` is retired in epoch 1
  have run := run.tail (.critical 1 (.unlink _ true rfl))
  have run := run.tail (.retire 1 (.call _ true rfl rfl))
  have run := run.tail (.retire 1 (.loadEpoch _ _ 1 rfl rfl))
  have run := run.tail (.retire 1 (.loadHead _ 1 _ rfl rfl))
  have run := run.tail (.retire 1 (.push _ 1 (some 0) rfl rfl))
  -- thread 0 has seen epoch 1, so the epoch advances to 2
  have run := run.tail (.sync 1 (.lock _ rfl rfl))
  have run := run.tail (.sync 1 (.loadGlobal _ rfl))
  have run := run.tail (.sync 1 (.loadRegistry _ 1 rfl))
  have run := run.tail (.sync 1 (.loadActive _ 1 0 [] _ rfl rfl))
  have run := run.tail (.sync 1 (.loadLocalEpoch _ 1 0 [] _ rfl rfl))
  have run := run.tail (.sync 1 (.scanDone _ 1 rfl))
  have run := run.tail (.sync 1 (.advance _ 1 rfl))
  have run := run.tail (.sync 1 (.steal _ 2 rfl))
  have run := run.tail (.sync 1 (.keepFirst _ 2 1 _ rfl rfl younger))
  have run := run.tail (.sync 1 (.release _ 2 0 _ _ rfl rfl old))
  have run := run.tail (.sync 1 (.loopDone _ 2 1 1 rfl))
  have run := run.tail (.sync 1 (.loadPending _ 1 1 _ rfl rfl))
  have run := run.tail (.sync 1 (.push _ 1 1 none rfl rfl))
  have run := run.tail (.sync 1 (.unlock _ rfl))
  -- thread 0 has not seen epoch 2, which stays
  have run := run.tail (.sync 1 (.lock _ rfl rfl))
  have run := run.tail (.sync 1 (.loadGlobal _ rfl))
  have run := run.tail (.sync 1 (.loadRegistry _ 2 rfl))
  have run := run.tail (.sync 1 (.loadActive _ 2 0 [] _ rfl rfl))
  have run := run.tail (.sync 1 (.loadLocalEpoch _ 2 0 [] _ rfl rfl))
  have run := run.tail (.sync 1 (.steal _ 2 rfl))
  have run := run.tail (.sync 1 (.keepFirst _ 2 1 _ rfl rfl younger))
  exact ⟨_, run, rfl, .head _, .head _, rfl, rfl,
    not_released_during_section _ run 0 23 1 rfl true 24 (.head _) (by decide)⟩

end Ebr
end Runtime
end ClojureRt
