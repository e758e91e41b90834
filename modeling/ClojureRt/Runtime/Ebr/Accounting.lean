import ClojureRt.Lib.LinkedList
import ClojureRt.Runtime.Ebr.Safety
import Mathlib.Data.List.Nodup

/-!
# Every retired value is released once

Each retired object is held by one party: the pending list, the caller of
`autorelease` that has not pushed it yet, or a reclaimer that stole it.  Steps
move objects between the parties, and the calls they stand for move along until
they are released.
-/

namespace ClojureRt
namespace Runtime
namespace Ebr

open LinkedList

variable {Value : Type*} {isPtr : Value → Bool}

/-! ## Who holds which object -/

/-- The parties that hold retired objects. -/
inductive Holder
  | pending
  | caller (thread : Thread)
  | reclaimer (thread : Thread)
  deriving DecidableEq

/-- The `next` fields of the retired objects. -/
def State.link (state : State Value) (address : Address) : Option
    (Option Address) :=
  (state.retired address).map RetiredObject.next

/-- The objects held by a thread inside `autorelease`. -/
def CallerList
    (link : Address → Option (Option Address)) :
    Pc Value → List Address → Prop
  | .retireLoadHead node, held => held = [node]
  | .retirePush node oldHead, held => held = [node] ∧ link node = some oldHead
  | _, held => held = []

/-- The objects held by a thread inside `Ebr_synchronize_and_reclaim`: those it
keeps, linked from head to tail, and those it has not looked at yet. -/
def ReclaimerList
    (link : Address → Option (Option Address)) :
    Pc Value → List Address → Prop
  | .syncLoop _ cur none, held => Segment link cur held none
  | .syncLoop _ cur (some (toKeepHead, toKeepTail)), held =>
      ∃ kept rest, held = kept ++ toKeepTail :: rest ∧
        Segment link (some toKeepHead) kept (some toKeepTail) ∧
        link toKeepTail = some none ∧
        Segment link cur rest none
  | .syncLoadPending toKeepHead toKeepTail, held =>
      ∃ kept, held = kept ++ [toKeepTail] ∧
        Segment link (some toKeepHead) kept (some toKeepTail)
  | .syncPush toKeepHead toKeepTail oldHead, held =>
      ∃ kept, held = kept ++ [toKeepTail] ∧
        Segment link (some toKeepHead) kept (some toKeepTail) ∧
        link toKeepTail = some oldHead
  | _, held => held = []

/-- Writes to objects of others keep what a caller holds. -/
theorem CallerList.frame
    {link changed : Address → Option (Option Address)}
    {pc : Pc Value}
    {held : List Address}
    (callerList : CallerList link pc held)
    (agree : ∀ address ∈ held, changed address = link address) :
    CallerList changed pc held := by
  cases pc with
  | retirePush node oldHead =>
      obtain ⟨rfl, linkEqual⟩ := callerList
      exact ⟨rfl, by rw [agree node List.mem_cons_self, linkEqual]⟩
  | _ => exact callerList

/-- Writes to objects of others keep what a reclaimer holds. -/
theorem ReclaimerList.frame
    {link changed : Address → Option (Option Address)}
    {pc : Pc Value}
    {held : List Address}
    (reclaimerList : ReclaimerList link pc held)
    (agree : ∀ address ∈ held, changed address = link address) :
    ReclaimerList changed pc held := by
  cases pc with
  | syncLoop currentGlobal cur toKeep =>
      cases toKeep with
      | none => exact Segment.frame reclaimerList agree
      | some ends =>
          obtain ⟨kept, rest, rfl, keptSegment, tailEqual, restSegment⟩ :=
            reclaimerList
          refine ⟨kept, rest, rfl, keptSegment.frame ?_, ?_,
            restSegment.frame ?_⟩
          · exact fun address member => agree address (by simp [member])
          · rw [agree _ (by simp), tailEqual]
          · exact fun address member => agree address (by simp [member])
  | syncLoadPending toKeepHead toKeepTail =>
      obtain ⟨kept, rfl, keptSegment⟩ := reclaimerList
      exact ⟨kept, rfl, keptSegment.frame fun address member =>
        agree address (by simp [member])⟩
  | syncPush toKeepHead toKeepTail oldHead =>
      obtain ⟨kept, rfl, keptSegment, tailEqual⟩ := reclaimerList
      refine ⟨kept, rfl, keptSegment.frame ?_, ?_⟩
      · exact fun address member => agree address (by simp [member])
      · rw [agree _ (by simp), tailEqual]
  | _ => exact reclaimerList

/-- Every allocated object has one holder, and each holder's objects are linked
as its program counter says. -/
structure Layout
    (state : State Value)
    (held : Holder → List Address)
    (owner : Address → Option Holder) : Prop where
  nodup : ∀ holder, (held holder).Nodup
  mem_iff : ∀ holder address, address ∈ held holder ↔
    owner address = some holder
  allocated : ∀ address, owner address = none ↔ state.retired address = none
  pending : Segment state.link state.pendingReclamation (held .pending) none
  caller : ∀ thread,
    CallerList state.link (state.pc thread) (held (.caller thread))
  reclaimer : ∀ thread,
    ReclaimerList state.link (state.pc thread) (held (.reclaimer thread))

namespace Layout

/-- There is nothing to be held. -/
theorem initial :
    Layout (State.initial : State Value) (fun _ => []) (fun _ => none) := by
  constructor <;> simp [State.initial, CallerList, ReclaimerList]

/-- A step of one thread: what the other threads hold is framed. -/
theorem step
    {before after : State Value}
    {held heldAfter : Holder → List Address}
    {owner ownerAfter : Address → Option Holder}
    (layout : Layout before held owner)
    (thread : Thread)
    (pcOther : ∀ other, other ≠ thread → after.pc other = before.pc other)
    (heldOther : ∀ other, other ≠ thread →
      heldAfter (.caller other) = held (.caller other) ∧
        heldAfter (.reclaimer other) = held (.reclaimer other))
    (linkOther : ∀ address, owner address ≠ some .pending →
      owner address ≠ some (.caller thread) →
      owner address ≠ some (.reclaimer thread) → owner address ≠ none →
      after.link address = before.link address)
    (nodup : ∀ holder, (heldAfter holder).Nodup)
    (mem_iff : ∀ holder address,
      address ∈ heldAfter holder ↔ ownerAfter address = some holder)
    (allocated : ∀ address, ownerAfter address = none ↔
      after.retired address = none)
    (pending : Segment after.link after.pendingReclamation
      (heldAfter .pending) none)
    (caller : CallerList after.link (after.pc thread)
      (heldAfter (.caller thread)))
    (reclaimer :
      ReclaimerList after.link (after.pc thread)
        (heldAfter (.reclaimer thread))) :
    Layout after heldAfter ownerAfter := by
  refine ⟨nodup, mem_iff, allocated, pending, ?_, ?_⟩
  · intro other
    by_cases same : other = thread
    · rw [same]
      exact caller
    · rw [pcOther other same, (heldOther other same).1]
      refine (layout.caller other).frame fun address member => ?_
      have ownerEqual := (layout.mem_iff _ _).mp member
      exact linkOther address (by simp [ownerEqual])
        (by simp [ownerEqual, same])
        (by simp [ownerEqual]) (by simp [ownerEqual])
  · intro other
    by_cases same : other = thread
    · rw [same]
      exact reclaimer
    · rw [pcOther other same, (heldOther other same).2]
      refine (layout.reclaimer other).frame fun address member => ?_
      have ownerEqual := (layout.mem_iff _ _).mp member
      exact linkOther address (by simp [ownerEqual]) (by simp [ownerEqual])
        (by simp [ownerEqual, same]) (by simp [ownerEqual])

/-- A step that moves no object and writes links of objects its thread holds. -/
theorem relink
    {before after : State Value}
    {held : Holder → List Address}
    {owner : Address → Option Holder}
    (layout : Layout before held owner)
    (thread : Thread)
    (pc : Pc Value)
    (pcEqual : after.pc = Function.update before.pc thread pc)
    (pendingEqual : after.pendingReclamation = before.pendingReclamation)
    (allocatedSame : ∀ address,
      after.retired address = none ↔ before.retired address = none)
    (linkOther : ∀ address, owner address ≠ some (.caller thread) →
      owner address ≠ some (.reclaimer thread) →
      after.link address = before.link address)
    (caller : CallerList after.link pc (held (.caller thread)))
    (reclaimer : ReclaimerList after.link pc (held (.reclaimer thread))) :
    Layout after held owner := by
  refine layout.step thread ?_ (fun _ _ => ⟨rfl, rfl⟩) ?_ layout.nodup
    layout.mem_iff ?_ ?_ ?_ ?_
  · intro other notThread
    rw [pcEqual, Function.update_of_ne notThread]
  · exact fun address _ notCaller notReclaimer _ =>
      linkOther address notCaller notReclaimer
  · exact fun address =>
      (layout.allocated address).trans (allocatedSame address).symm
  · rw [pendingEqual]
    refine layout.pending.frame fun address member => ?_
    have ownerEqual := (layout.mem_iff _ _).mp member
    exact linkOther address (by simp [ownerEqual]) (by simp [ownerEqual])
  · rw [pcEqual, Function.update_self]
    exact caller
  · rw [pcEqual, Function.update_self]
    exact reclaimer

/-- A step that moves no object and writes no link. -/
theorem plain
    {before after : State Value}
    {held : Holder → List Address}
    {owner : Address → Option Holder}
    (layout : Layout before held owner)
    (thread : Thread)
    (pc : Pc Value)
    (pcEqual : after.pc = Function.update before.pc thread pc)
    (retiredEqual : after.retired = before.retired)
    (pendingEqual : after.pendingReclamation = before.pendingReclamation)
    (caller : CallerList before.link (before.pc thread)
      (held (.caller thread)) →
      CallerList before.link pc (held (.caller thread)))
    (reclaimer :
      ReclaimerList before.link (before.pc thread) (held (.reclaimer thread)) →
        ReclaimerList before.link pc (held (.reclaimer thread))) :
    Layout after held owner := by
  have linkEqual : after.link = before.link := by
    unfold State.link
    rw [retiredEqual]
  refine layout.relink thread pc pcEqual pendingEqual ?_ ?_ ?_ ?_
  · intro address
    rw [retiredEqual]
  · intros
    rw [linkEqual]
  · rw [linkEqual]
    exact caller (layout.caller thread)
  · rw [linkEqual]
    exact reclaimer (layout.reclaimer thread)

/-- Registering a thread moves no object. -/
theorem registerStep
    {before after : State Value}
    {held : Holder → List Address}
    {owner : Address → Option Holder}
    (layout : Layout before held owner)
    (step : RegisterStep thread before after) :
    Layout after held owner := by
  cases step with
  | loadTerminated record todo found =>
      refine layout.plain thread _ rfl rfl rfl ?_ ?_ <;>
        cases found.terminated <;> simp_all [CallerList, ReclaimerList]
  | _ =>
      refine layout.plain thread _ rfl rfl rfl ?_ ?_ <;>
        simp_all [CallerList, ReclaimerList]

/-- Entering and leaving a section moves no object. -/
theorem sectionStep
    {before after : State Value}
    {held : Holder → List Address}
    {owner : Address → Option Holder}
    (layout : Layout before held owner)
    (step : SectionStep thread before after) :
    Layout after held owner := by
  cases step <;>
    refine layout.plain thread _ rfl rfl rfl ?_ ?_ <;>
      simp_all [CallerList, ReclaimerList]

/-- Overwriting an object writes one link. -/
theorem link_setRetired
    (state : State Value)
    (node address : Address)
    (object : RetiredObject Value) :
    (state.setRetired node (some object)).link address =
      if address = node then some object.next else state.link address := by
  simp only [State.link, State.setRetired, Function.update_apply]
  split <;> rfl

/-- Overwriting an allocated object allocates nothing. -/
theorem allocated_setRetired
    {state : State Value}
    {node : Address}
    {object : RetiredObject Value}
    (allocated : state.retired node = some object)
    (relinked : RetiredObject Value)
    (address : Address) :
    (state.setRetired node (some relinked)).retired address = none ↔
      state.retired address = none := by
  simp only [State.setRetired, Function.update_apply]
  split
  · next same => simp [same, allocated]
  · rfl

/-- The lists after one holder hands all its objects to another. -/
def handOver
    (held : Holder → List Address)
    (source target : Holder) : Holder → List Address :=
  Function.update (Function.update held source []) target
    (held source ++ held target)

/-- The source has nothing left. -/
theorem handOver_source
    (held : Holder → List Address)
    {source target : Holder}
    (distinct : source ≠ target) :
    handOver held source target source = [] := by
  rw [handOver, Function.update_of_ne distinct, Function.update_self]

/-- The target has both. -/
theorem handOver_target
    (held : Holder → List Address)
    (source target : Holder) :
    handOver held source target target = held source ++ held target := by
  rw [handOver, Function.update_self]

/-- The others keep what they have. -/
theorem handOver_other
    (held : Holder → List Address)
    {source target other : Holder}
    (notSource : other ≠ source)
    (notTarget : other ≠ target) :
    handOver held source target other = held other := by
  rw [handOver, Function.update_of_ne notTarget,
    Function.update_of_ne notSource]

/-- A step that hands objects over between the pending list and its thread. -/
theorem transfer
    {before after : State Value}
    {held : Holder → List Address}
    {owner : Address → Option Holder}
    (layout : Layout before held owner)
    (thread : Thread)
    (source target : Holder)
    (distinct : source ≠ target)
    (sourceMine : ∀ other, other ≠ thread → source ≠ .caller other ∧
      source ≠ .reclaimer other)
    (targetMine : ∀ other, other ≠ thread → target ≠ .caller other ∧
      target ≠ .reclaimer other)
    (pcOther : ∀ other, other ≠ thread → after.pc other = before.pc other)
    (retiredEqual : after.retired = before.retired)
    (pending : Segment before.link after.pendingReclamation
      (handOver held source target .pending) none)
    (caller : CallerList before.link (after.pc thread)
      (handOver held source target (.caller thread)))
    (reclaimer : ReclaimerList before.link (after.pc thread)
      (handOver held source target (.reclaimer thread))) :
    Layout after (handOver held source target)
      (fun address =>
        if owner address = some source then some target
        else owner address) := by
  have linkEqual : after.link = before.link := by
    unfold State.link
    rw [retiredEqual]
  refine layout.step thread pcOther ?_ (fun _ _ _ _ _ => by rw [linkEqual])
    ?_ ?_ ?_ (linkEqual ▸ pending) (linkEqual ▸ caller) (linkEqual ▸ reclaimer)
  · intro other notThread
    exact ⟨handOver_other held (sourceMine other notThread).1.symm
        (targetMine other notThread).1.symm,
      handOver_other held (sourceMine other notThread).2.symm
        (targetMine other notThread).2.symm⟩
  · intro holder
    by_cases isTarget : holder = target
    · rw [isTarget, handOver_target]
      refine (layout.nodup source).append (layout.nodup target) ?_
      intro address inSource inTarget
      have sourceEqual := (layout.mem_iff _ _).mp inSource
      have targetEqual := (layout.mem_iff _ _).mp inTarget
      rw [sourceEqual] at targetEqual
      exact distinct (Option.some.inj targetEqual)
    · by_cases isSource : holder = source
      · rw [isSource, handOver_source held distinct]
        exact List.nodup_nil
      · rw [handOver_other held isSource isTarget]
        exact layout.nodup holder
  · intro holder address
    by_cases isTarget : holder = target
    · rw [isTarget, handOver_target, List.mem_append, layout.mem_iff,
        layout.mem_iff]
      split <;> simp_all
    · by_cases isSource : holder = source
      · rw [isSource, handOver_source held distinct]
        split <;> simp_all [eq_comm]
      · rw [handOver_other held isSource isTarget, layout.mem_iff]
        split <;> simp_all [eq_comm]
  · intro address
    rw [retiredEqual, ← layout.allocated]
    split <;> simp_all

/-- What a caller has is its own. -/
theorem owner_eq_caller
    {state : State Value}
    {held : Holder → List Address}
    {owner : Address → Option Holder}
    (layout : Layout state held owner)
    (heldEqual : held (.caller thread) = [node]) :
    owner node = some (.caller thread) :=
  (layout.mem_iff _ _).mp (by simp [heldEqual])

/-- `autorelease` allocates an object for its caller, links it before the
pending list and hands it over. -/
theorem retireStep
    {before after : State Value}
    {held : Holder → List Address}
    {owner : Address → Option Holder}
    (layout : Layout before held owner)
    (step : RetireStep isPtr thread before after) :
    ∃ heldAfter ownerAfter, Layout after heldAfter ownerAfter := by
  cases step with
  | callWithoutPointer value atIdle notPointer =>
      refine ⟨held, owner, layout.plain thread _ rfl rfl rfl ?_ ?_⟩ <;>
        simp_all [CallerList, ReclaimerList]
  | call value atIdle isPointer =>
      refine ⟨held, owner, layout.plain thread _ rfl rfl rfl ?_ ?_⟩ <;>
        simp_all [CallerList, ReclaimerList]
  | pushFailed node oldHead atPc =>
      refine ⟨held, owner, layout.plain thread _ rfl rfl rfl ?_ ?_⟩ <;>
        simp_all [CallerList, ReclaimerList]
  | loadHead node object atPc objectEqual =>
      have callerList := layout.caller thread
      rw [atPc] at callerList
      have reclaimerList := layout.reclaimer thread
      rw [atPc] at reclaimerList
      have owned := layout.owner_eq_caller callerList
      refine ⟨held, owner, layout.relink thread _ rfl rfl
        (allocated_setRetired objectEqual _) ?_ ?_ reclaimerList⟩
      · intro address notCaller notReclaimer
        refine (link_setRetired before node address _).trans (if_neg ?_)
        rintro rfl
        exact notCaller owned
      · exact ⟨callerList,
          (link_setRetired before node node _).trans (if_pos rfl)⟩
  | loadEpoch call node atPc unallocated =>
      have callerList := layout.caller thread
      rw [atPc] at callerList
      have reclaimerList := layout.reclaimer thread
      rw [atPc] at reclaimerList
      have unowned := (layout.allocated node).mpr unallocated
      refine ⟨Function.update held (.caller thread) [node],
        Function.update owner node (some (.caller thread)),
        layout.step thread
          (fun other notThread => Function.update_of_ne notThread _ _)
          ?_ ?_ ?_ ?_ ?_ ?_ ?_ ?_⟩
      · intro other notThread
        simp [notThread]
      · intro address _ _ _ owned
        refine (link_setRetired before node address _).trans (if_neg ?_)
        rintro rfl
        exact owned unowned
      · intro holder
        rw [Function.update_apply]
        split
        · exact List.nodup_singleton node
        · exact layout.nodup holder
      · intro holder address
        have heldBefore := layout.mem_iff holder address
        by_cases isCaller : holder = .caller thread
        · by_cases isNode : address = node
          · simp [isCaller, isNode]
          · rw [isCaller, callerList] at heldBefore
            simpa [isCaller, isNode] using heldBefore
        · by_cases isNode : address = node
          · rw [isNode, unowned] at heldBefore
            simpa [isCaller, isNode, eq_comm] using heldBefore
          · simpa [isCaller, isNode] using heldBefore
      · intro address
        have allocatedBefore := layout.allocated address
        by_cases isNode : address = node
        · simp [isNode, State.goto, State.setRetired]
        · simpa [isNode, State.goto, State.setRetired] using allocatedBefore
      · rw [Function.update_of_ne (by simp)]
        refine layout.pending.frame fun address member => ?_
        have ownerEqual := (layout.mem_iff _ _).mp member
        refine (link_setRetired before node address _).trans (if_neg ?_)
        rintro rfl
        rw [unowned] at ownerEqual
        cases ownerEqual
      · simp [State.goto, CallerList]
      · simpa [State.goto, ReclaimerList] using reclaimerList
  | push node oldHead atPc headEqual =>
      have callerList := layout.caller thread
      rw [atPc] at callerList
      obtain ⟨heldEqual, linkEqual⟩ := callerList
      have reclaimerList := layout.reclaimer thread
      rw [atPc] at reclaimerList
      refine ⟨_, _,
        layout.transfer thread (.caller thread) .pending (by simp) ?_ (by simp)
        (fun other notThread => Function.update_of_ne notThread _ _) rfl
        ?_ ?_ ?_⟩
      · intro other notThread
        simp [notThread.symm]
      · rw [handOver_target, heldEqual]
        exact ⟨rfl, oldHead, linkEqual, headEqual ▸ layout.pending⟩
      · rw [handOver_source held (by simp)]
        simp [State.goto, CallerList]
      · rw [handOver_other held (by simp) (by simp)]
        simpa [State.goto, ReclaimerList] using reclaimerList

/-- What a reclaimer has is its own. -/
theorem owner_eq_reclaimer
    {state : State Value}
    {held : Holder → List Address}
    {owner : Address → Option Holder}
    (layout : Layout state held owner)
    (member : address ∈ held (.reclaimer thread)) :
    owner address = some (.reclaimer thread) :=
  (layout.mem_iff _ _).mp member

/-- Releasing frees the object the reclaimer looks at. -/
theorem release
    {before : State Value}
    {held : Holder → List Address}
    {owner : Address → Option Holder}
    (layout : Layout before held owner)
    (objectEqual : before.retired cur = some object)
    (atPc : before.pc thread = .syncLoop currentGlobal (some cur) toKeep) :
    ∃ heldAfter ownerAfter,
      Layout ((({ before with released := object.call :: before.released }).setRetired
        cur none).goto thread (.syncLoop currentGlobal object.next toKeep))
        heldAfter ownerAfter := by
  have reclaimerList := layout.reclaimer thread
  rw [atPc] at reclaimerList
  have callerList := layout.caller thread
  rw [atPc] at callerList
  have linkCur : before.link cur = some object.next := by
    simp [State.link, objectEqual]
  have linkOther : ∀ address, address ≠ cur →
      ((({ before with released := object.call :: before.released }).setRetired
        cur none).goto thread (.syncLoop currentGlobal object.next toKeep)).link
          address =
        before.link address := by
    intro address notCur
    simp [State.link, State.goto, State.setRetired, notCur]
  -- Both shapes of the reclaimer's list lose the address `cur`.
  obtain ⟨kept, rest, heldEqual, shape⟩ : ∃ kept rest,
      held (.reclaimer thread) = kept ++ cur :: rest ∧
      ReclaimerList before.link
        (.syncLoop currentGlobal object.next toKeep : Pc Value)
        (kept ++ rest) := by
    cases toKeep with
    | none =>
        obtain ⟨rest, heldEqual⟩ := Segment.eq_cons_of_start reclaimerList
        refine ⟨[], rest, heldEqual, ?_⟩
        rw [heldEqual] at reclaimerList
        obtain ⟨-, next, linkEqual, restSegment⟩ := reclaimerList
        rw [linkCur] at linkEqual
        cases linkEqual
        exact restSegment
    | some ends =>
        obtain ⟨kept, rest, heldEqual, keptSegment, tailEqual, restSegment⟩ :=
          reclaimerList
        obtain ⟨rest, rfl⟩ := restSegment.eq_cons_of_start
        obtain ⟨-, next, linkEqual, restSegment⟩ := restSegment
        rw [linkCur] at linkEqual
        cases linkEqual
        exact ⟨kept ++ [ends.2], rest, by simpa using heldEqual,
          kept, rest, by simp, keptSegment, tailEqual, restSegment⟩
  have nodup := layout.nodup (.reclaimer thread)
  rw [heldEqual, List.nodup_middle, List.nodup_cons] at nodup
  have curOwner : owner cur = some (.reclaimer thread) :=
    layout.owner_eq_reclaimer (by simp [heldEqual])
  refine ⟨Function.update held (.reclaimer thread) (kept ++ rest),
    Function.update owner cur none,
    layout.step thread
      (fun other notThread => Function.update_of_ne notThread _ _)
      ?_ ?_ ?_ ?_ ?_ ?_ ?_ ?_⟩
  · intro other notThread
    simp [notThread]
  · intro address _ _ notReclaimer _
    refine linkOther address ?_
    rintro rfl
    exact notReclaimer curOwner
  · intro holder
    rw [Function.update_apply]
    split
    · exact nodup.2
    · exact layout.nodup holder
  · intro holder address
    have heldBefore := layout.mem_iff holder address
    by_cases isReclaimer : holder = .reclaimer thread
    · rw [isReclaimer, heldEqual] at heldBefore
      by_cases isCur : address = cur
      · rw [isCur, isReclaimer, Function.update_self, Function.update_self]
        exact ⟨fun member => absurd member nodup.1,
          fun absent => by cases absent⟩
      · simpa [isReclaimer, isCur] using heldBefore
    · by_cases isCur : address = cur
      · rw [isCur, curOwner] at heldBefore
        simpa [isReclaimer, isCur, eq_comm] using heldBefore
      · simpa [isReclaimer, isCur] using heldBefore
  · intro address
    have allocatedBefore := layout.allocated address
    by_cases isCur : address = cur
    · simp [isCur, State.goto, State.setRetired]
    · simpa [isCur, State.goto, State.setRetired] using allocatedBefore
  · rw [Function.update_of_ne (by simp)]
    refine layout.pending.frame fun address member => linkOther address ?_
    rintro rfl
    have ownerEqual := (layout.mem_iff _ _).mp member
    rw [curOwner] at ownerEqual
    cases ownerEqual
  · rw [Function.update_of_ne (by simp)]
    simpa [State.goto, CallerList] using callerList
  · simp only [State.goto, Function.update_self]
    refine shape.frame fun address member => linkOther address ?_
    rintro rfl
    exact nodup.1 member

/-- The first object that is kept starts the new list. -/
theorem keepFirst
    {before : State Value}
    {held : Holder → List Address}
    {owner : Address → Option Holder}
    (layout : Layout before held owner)
    (objectEqual : before.retired cur = some object)
    (atPc : before.pc thread = .syncLoop currentGlobal (some cur) none) :
    Layout ((before.setRetired cur (some { object with next := none })).goto
      thread
      (.syncLoop currentGlobal object.next (some (cur, cur)))) held owner := by
  have reclaimerList := layout.reclaimer thread
  rw [atPc] at reclaimerList
  have callerList := layout.caller thread
  rw [atPc] at callerList
  have linkCur : before.link cur = some object.next := by
    simp [State.link, objectEqual]
  obtain ⟨rest, heldEqual⟩ := Segment.eq_cons_of_start reclaimerList
  have nodup := layout.nodup (.reclaimer thread)
  rw [heldEqual] at nodup reclaimerList
  obtain ⟨-, next, linkEqual, restSegment⟩ := reclaimerList
  rw [linkCur] at linkEqual
  cases linkEqual
  have curOwner : owner cur = some (.reclaimer thread) :=
    layout.owner_eq_reclaimer (by simp [heldEqual])
  refine layout.relink thread _ rfl rfl (allocated_setRetired objectEqual _) ?_
    callerList ?_
  · intro address _ notReclaimer
    refine (link_setRetired before cur address _).trans (if_neg ?_)
    rintro rfl
    exact notReclaimer curOwner
  · refine ⟨[], rest, heldEqual, rfl,
      (link_setRetired before cur cur _).trans (if_pos rfl),
      restSegment.frame fun address member => ?_⟩
    refine (link_setRetired before cur address _).trans (if_neg ?_)
    rintro rfl
    exact (List.nodup_cons.mp nodup).1 member

/-- An object that is kept goes to the end of the new list. -/
theorem keepLater
    {before : State Value}
    {held : Holder → List Address}
    {owner : Address → Option Holder}
    (layout : Layout before held owner)
    (objectEqual : before.retired cur = some object)
    (tailEqual : before.retired toKeepTail = some tailObject)
    (atPc : before.pc thread =
      .syncLoop currentGlobal (some cur) (some (toKeepHead, toKeepTail))) :
    Layout (((before.setRetired cur
      (some { object with next := none })).setRetired
      toKeepTail (some { tailObject with next := some cur })).goto thread
        (.syncLoop currentGlobal object.next (some (toKeepHead, cur)))) held
          owner := by
  have reclaimerList := layout.reclaimer thread
  rw [atPc] at reclaimerList
  have callerList := layout.caller thread
  rw [atPc] at callerList
  have linkCur : before.link cur = some object.next := by
    simp [State.link, objectEqual]
  obtain ⟨kept, rest, heldEqual, keptSegment, -, restSegment⟩ := reclaimerList
  obtain ⟨rest, rfl⟩ := restSegment.eq_cons_of_start
  obtain ⟨-, next, linkEqual, restSegment⟩ := restSegment
  rw [linkCur] at linkEqual
  cases linkEqual
  have nodup := layout.nodup (.reclaimer thread)
  rw [heldEqual, List.nodup_append] at nodup
  obtain ⟨-, restNodup, apart⟩ := nodup
  have tailFresh := List.nodup_cons.mp restNodup
  have curFresh := List.nodup_cons.mp tailFresh.2
  have tailNotCur : toKeepTail ≠ cur := fun same => tailFresh.1 (by simp [same])
  have curOwner : owner cur = some (.reclaimer thread) :=
    layout.owner_eq_reclaimer (by simp [heldEqual])
  have tailOwner : owner toKeepTail = some (.reclaimer thread) :=
    layout.owner_eq_reclaimer (by simp [heldEqual])
  have linkAfter : ∀ address,
      (((before.setRetired cur (some { object with next := none })).setRetired
        toKeepTail (some { tailObject with next := some cur })).goto thread
          (.syncLoop currentGlobal object.next (some (toKeepHead, cur)))).link
            address =
        if address = toKeepTail then some (some cur)
        else if address = cur then some none else before.link address := by
    intro address
    refine (link_setRetired _ toKeepTail address _).trans ?_
    rw [link_setRetired]
  refine layout.relink thread _ rfl rfl ?_ ?_ callerList ?_
  · intro address
    have tailKept : (before.setRetired cur
        (some { object with next := none })).retired toKeepTail =
          some tailObject :=
      (Function.update_of_ne tailNotCur _ _).trans tailEqual
    exact (allocated_setRetired tailKept _ address).trans
      (allocated_setRetired objectEqual _ address)
  · intro address _ notReclaimer
    rw [linkAfter, if_neg, if_neg]
    · rintro rfl
      exact notReclaimer curOwner
    · rintro rfl
      exact notReclaimer tailOwner
  · refine ⟨kept ++ [toKeepTail], rest, by simp [heldEqual], ?_, ?_, ?_⟩
    · refine Segment.concat (keptSegment.frame fun address member => ?_) ?_
      · rw [linkAfter, if_neg (apart address member _ (by simp)),
          if_neg (apart address member _ (by simp))]
      · rw [linkAfter, if_pos rfl]
    · rw [linkAfter, if_neg tailNotCur.symm, if_pos rfl]
    · refine restSegment.frame fun address member => ?_
      rw [linkAfter, if_neg, if_neg]
      · rintro rfl
        exact curFresh.1 member
      · rintro rfl
        exact tailFresh.1 (List.mem_cons_of_mem _ member)

/-- The new list is put in front of what is pending. -/
theorem loadPending
    {before : State Value}
    {held : Holder → List Address}
    {owner : Address → Option Holder}
    (layout : Layout before held owner)
    (tailEqual : before.retired toKeepTail = some tailObject)
    (atPc : before.pc thread = .syncLoadPending toKeepHead toKeepTail) :
    Layout ((before.setRetired toKeepTail
      (some { tailObject with next := before.pendingReclamation })).goto thread
        (.syncPush toKeepHead toKeepTail before.pendingReclamation)) held
          owner := by
  have reclaimerList := layout.reclaimer thread
  rw [atPc] at reclaimerList
  have callerList := layout.caller thread
  rw [atPc] at callerList
  obtain ⟨kept, heldEqual, keptSegment⟩ := reclaimerList
  have nodup := layout.nodup (.reclaimer thread)
  rw [heldEqual, List.nodup_append] at nodup
  have tailOwner : owner toKeepTail = some (.reclaimer thread) :=
    layout.owner_eq_reclaimer (by simp [heldEqual])
  refine layout.relink thread _ rfl rfl (allocated_setRetired tailEqual _) ?_
    callerList ?_
  · intro address _ notReclaimer
    refine (link_setRetired before toKeepTail address _).trans (if_neg ?_)
    rintro rfl
    exact notReclaimer tailOwner
  · refine ⟨kept, heldEqual, keptSegment.frame fun address member => ?_,
      (link_setRetired before toKeepTail toKeepTail _).trans (if_pos rfl)⟩
    exact (link_setRetired before toKeepTail address _).trans
      (if_neg (nodup.2.2 address member _ (by simp)))

/-- A reclaimer steals the pending list, sorts it into what it releases and what
it keeps, and hands the kept objects back. -/
theorem syncStep
    {before after : State Value}
    {held : Holder → List Address}
    {owner : Address → Option Holder}
    (layout : Layout before held owner)
    (step : SyncStep thread before after) :
    ∃ heldAfter ownerAfter, Layout after heldAfter ownerAfter := by
  cases step with
  | loadActive currentGlobal record todo found =>
      refine ⟨held, owner, layout.plain thread _ rfl rfl rfl ?_ ?_⟩ <;>
        cases found.active <;> simp_all [CallerList, ReclaimerList]
  | loadLocalEpoch currentGlobal record todo found =>
      refine ⟨held, owner, layout.plain thread _ rfl rfl rfl ?_ ?_⟩ <;>
        split <;> simp_all [CallerList, ReclaimerList]
  | steal currentGlobal atPc =>
      have callerList := layout.caller thread
      rw [atPc] at callerList
      have reclaimerList := layout.reclaimer thread
      rw [atPc] at reclaimerList
      refine ⟨_, _,
        layout.transfer thread .pending (.reclaimer thread) (by simp) (by simp)
        ?_ (fun other notThread => Function.update_of_ne notThread _ _) rfl
          ?_ ?_ ?_⟩
      · intro other notThread
        simp [notThread.symm]
      · rw [handOver_source held (by simp)]
        rfl
      · rw [handOver_other held (by simp) (by simp)]
        simpa [State.goto, CallerList] using callerList
      · rw [handOver_target,
          show held (.reclaimer thread) = [] from reclaimerList]
        simpa [State.goto, ReclaimerList] using layout.pending
  | release currentGlobal cur toKeep object atPc objectEqual =>
      exact layout.release objectEqual atPc
  | keepFirst currentGlobal cur object atPc objectEqual =>
      exact ⟨held, owner, layout.keepFirst objectEqual atPc⟩
  | keepLater currentGlobal cur toKeepHead toKeepTail object tailObject atPc
      objectEqual
      tailEqual =>
      exact ⟨held, owner, layout.keepLater objectEqual tailEqual atPc⟩
  | loopDone currentGlobal toKeepHead toKeepTail atPc =>
      refine ⟨held, owner, layout.plain thread _ rfl rfl rfl ?_ ?_⟩
      · simp [atPc, CallerList]
      · rw [atPc]
        rintro ⟨kept, rest, heldEqual, keptSegment, -, restSegment⟩
        obtain rfl := restSegment.eq_nil_of_none
        exact ⟨kept, heldEqual, keptSegment⟩
  | loopDoneEmpty currentGlobal atPc =>
      refine ⟨held, owner, layout.plain thread _ rfl rfl rfl ?_ ?_⟩
      · simp [atPc, CallerList]
      · rw [atPc]
        exact fun restSegment => Segment.eq_nil_of_none restSegment
  | loadPending toKeepHead toKeepTail tailObject atPc tailEqual =>
      exact ⟨held, owner, layout.loadPending tailEqual atPc⟩
  | push toKeepHead toKeepTail oldHead atPc headEqual =>
      have callerList := layout.caller thread
      rw [atPc] at callerList
      have reclaimerList := layout.reclaimer thread
      rw [atPc] at reclaimerList
      obtain ⟨kept, heldEqual, keptSegment, linkEqual⟩ := reclaimerList
      refine ⟨_, _,
        layout.transfer thread (.reclaimer thread) .pending (by simp) ?_
          (by simp)
        (fun other notThread => Function.update_of_ne notThread _ _) rfl
        ?_ ?_ ?_⟩
      · intro other notThread
        simp [notThread.symm]
      · rw [handOver_target, heldEqual]
        exact (keptSegment.concat linkEqual).append (headEqual ▸ layout.pending)
      · rw [handOver_other held (by simp) (by simp)]
        simpa [State.goto, CallerList] using callerList
      · rw [handOver_source held (by simp)]
        simp [State.goto, ReclaimerList]
  | pushFailed toKeepHead toKeepTail oldHead atPc =>
      refine ⟨held, owner, layout.plain thread _ rfl rfl rfl ?_ ?_⟩
      · simp [atPc, CallerList]
      · rw [atPc]
        rintro ⟨kept, heldEqual, keptSegment, -⟩
        exact ⟨kept, heldEqual, keptSegment⟩
  | _ =>
      refine ⟨held, owner, layout.plain thread _ rfl rfl rfl ?_ ?_⟩ <;>
        simp_all [CallerList, ReclaimerList]

end Layout

/-- The retired objects of a state can be told apart by their holders. -/
def LaidOut (state : State Value) : Prop :=
  ∃ held owner, Layout state held owner

/-- By induction on the run. -/
theorem Reachable.laidOut
    {state : State Value}
    (reachable : Reachable isPtr state) :
    LaidOut state := by
  refine TransitionSystem.Reachable.invariant ?_ ?_ reachable
  · rintro state rfl
    exact ⟨_, _, Layout.initial⟩
  · rintro before after - ⟨held, owner, layout⟩ step
    cases step with
    | register thread step => exact ⟨held, owner, layout.registerStep step⟩
    | critical thread step => exact ⟨held, owner, layout.sectionStep step⟩
    | retire thread step => exact layout.retireStep step
    | sync thread step => exact layout.syncStep step

/-! ## Where a call is -/

/-- What stands for a call: the caller before it allocates the object, the
object, or the release. -/
inductive Place
  | loading (thread : Thread)
  | node (address : Address)
  | released
  deriving DecidableEq

/-- A call is represented at a place. -/
def State.At (state : State Value) (call : Call Value) : Place → Prop
  | .loading thread => state.pc thread = .retireLoadEpoch call
  | .node address => (state.retired address).map RetiredObject.call = some call
  | .released => call ∈ state.released

/-- Every call made so far is at exactly one place. -/
structure Placed (state : State Value) : Prop where
  called_iff : ∀ call, call ∈ state.called ↔ ∃ place, state.At call place
  unique : ∀ call left right, state.At call left → state.At call right →
    left = right
  released : state.released.Nodup
  earlier : ∀ call ∈ state.called, call.calledAt < state.clock

namespace Placed

/-- There is no call yet. -/
theorem initial : Placed (State.initial : State Value) := by
  refine ⟨?_, ?_, List.nodup_nil, by simp [State.initial]⟩
  · intro call
    refine ⟨by simp [State.initial], ?_⟩
    rintro ⟨_ | _ | _, present⟩ <;> simp [State.At, State.initial] at present
  · rintro call (_ | _ | _) right present <;>
      simp [State.At, State.initial] at present

/-- A step that moves no call. -/
theorem plain
    {before after : State Value}
    (placed : Placed before)
    (thread : Thread)
    (pc : Pc Value)
    (pcEqual : after.pc = Function.update before.pc thread pc)
    (clockEqual : after.clock = before.clock + 1)
    (calledEqual : after.called = before.called)
    (releasedEqual : after.released = before.released)
    (retiredEqual : ∀ address, (after.retired address).map RetiredObject.call =
      (before.retired address).map RetiredObject.call)
    (notLoading : ∀ call, before.pc thread ≠ .retireLoadEpoch call)
    (notLoadingAfter : ∀ call, pc ≠ .retireLoadEpoch call) :
    Placed after := by
  have atEqual : ∀ call place, after.At call place ↔ before.At call place := by
    intro call place
    cases place with
    | loading other =>
        simp only [State.At, pcEqual, Function.update_apply]
        split
        · next same => simp [same, notLoading, notLoadingAfter]
        · rfl
    | node address => simp only [State.At, retiredEqual]
    | released => simp only [State.At, releasedEqual]
  refine ⟨?_, ?_, ?_, ?_⟩
  · simpa only [calledEqual, atEqual] using placed.called_iff
  · simpa only [atEqual] using placed.unique
  · rw [releasedEqual]
    exact placed.released
  · intro call member
    rw [calledEqual] at member
    have := placed.earlier call member
    omega

/-- A step that puts one call at a new place, and nowhere else. -/
theorem put
    {before after : State Value}
    (placed : Placed before)
    (call : Call Value)
    (target : Place)
    (clockEqual : after.clock = before.clock + 1)
    (calledAfter : ∀ other, other ∈ after.called ↔ other = call ∨
      other ∈ before.called)
    (calledAt : call.calledAt < after.clock)
    (released : after.released.Nodup)
    (atCall : ∀ place, after.At call place ↔ place = target)
    (atOther : ∀ other, other ≠ call → ∀ place,
      after.At other place ↔ before.At other place) :
    Placed after := by
  refine ⟨?_, ?_, released, ?_⟩
  · intro other
    rw [calledAfter]
    by_cases same : other = call
    · simp [same, atCall]
    · simp [same, atOther other same, placed.called_iff]
  · intro other left right
    by_cases same : other = call
    · rw [same, atCall, atCall]
      rintro rfl rfl
      rfl
    · rw [atOther other same, atOther other same]
      exact placed.unique other left right
  · intro other member
    rcases (calledAfter other).mp member with rfl | old
    · exact calledAt
    · have := placed.earlier other old
      omega

/-- Registering a thread moves no call. -/
theorem registerStep
    {before after : State Value}
    (placed : Placed before)
    (step : RegisterStep thread before after) :
    Placed after := by
  cases step with
  | loadTerminated record todo found =>
      refine placed.plain thread _ rfl rfl rfl rfl (fun _ => rfl)
        (by simp_all) ?_
      cases found.terminated <;> simp
  | _ =>
      exact placed.plain thread _ rfl rfl rfl rfl (fun _ => rfl) (by simp_all)
        (by simp)

/-- Entering and leaving a section moves no call. -/
theorem sectionStep
    {before after : State Value}
    (placed : Placed before)
    (step : SectionStep thread before after) :
    Placed after := by
  cases step <;>
    exact placed.plain thread _ rfl rfl rfl rfl (fun _ => rfl) (by simp_all)
      (by simp)

/-- Relinking an object keeps the calls in place. -/
theorem call_setRetired
    {state : State Value}
    {node : Address}
    {object relinked : RetiredObject Value}
    (objectEqual : state.retired node = some object)
    (callEqual : relinked.call = object.call)
    (address : Address) :
    ((state.setRetired node (some relinked)).retired address).map
    RetiredObject.call =
      (state.retired address).map RetiredObject.call := by
  simp only [State.setRetired, Function.update_apply]
  split
  · next same => simp [same, objectEqual, callEqual]
  · rfl

/-- Retiring takes a call from the caller to the list. -/
theorem retireStep
    {before after : State Value}
    (placed : Placed before)
    (step : RetireStep isPtr thread before after) :
    Placed after := by
  cases step with
  | call value atIdle isPointer =>
      have fresh : (⟨value, before.clock⟩ : Call Value) ∉ before.called :=
        fun member => (placed.earlier _ member).false
      have nowhere : ∀ place, ¬ before.At ⟨value, before.clock⟩ place :=
        fun place present => fresh ((placed.called_iff _).mpr ⟨place, present⟩)
      refine placed.put ⟨value, before.clock⟩ (.loading thread) rfl ?_
        (Nat.lt_succ_self before.clock) placed.released ?_ ?_
      · simp [State.goto]
      · intro place
        cases place with
        | loading other =>
            simp only [State.At, State.goto, Function.update_apply,
              Place.loading.injEq]
            split
            · next same => simp [same]
            · next different =>
                exact iff_of_false (nowhere (.loading other)) different
        | node address => exact iff_of_false (nowhere (.node address)) (by simp)
        | released => exact iff_of_false (nowhere .released) (by simp)
      · intro other different place
        cases place with
        | loading otherThread =>
            simp only [State.At, State.goto, Function.update_apply]
            split
            · next same => simp [same, atIdle, different.symm]
            · rfl
        | _ => rfl
  | loadEpoch call node atPc unallocated =>
      have present : before.At call (.loading thread) := atPc
      have elsewhere : ∀ place, place ≠ .loading thread →
          ¬ before.At call place :=
        fun place different found =>
          different (placed.unique call _ _ found present)
      refine placed.put call (.node node) rfl ?_
        (Nat.lt_succ_of_lt
          (placed.earlier call ((placed.called_iff _).mpr ⟨_, present⟩)))
        placed.released ?_ ?_
      · intro other
        have called := (placed.called_iff call).mpr ⟨_, present⟩
        exact ⟨.inr, fun either => either.elim (fun same => same ▸ called) id⟩
      · intro place
        cases place with
        | loading other =>
            simp only [State.At, State.goto, Function.update_apply]
            split
            · simp
            · next different =>
              exact iff_of_false
                (elsewhere (.loading other) (by simp [different])) (by simp)
        | node address =>
            simp only [State.At, State.goto, State.setRetired,
              Function.update_apply, Place.node.injEq]
            split
            · next same => simp [same]
            · next different =>
              exact iff_of_false (elsewhere (.node address) (by simp)) different
        | released =>
            exact iff_of_false (elsewhere .released (by simp)) (by simp)
      · intro other different place
        cases place with
        | loading otherThread =>
            simp only [State.At, State.goto, Function.update_apply]
            split
            · next same => simp [same, atPc, different.symm]
            · rfl
        | node address =>
            simp only [State.At, State.goto, State.setRetired,
              Function.update_apply]
            split
            · next same => simp [same, unallocated, different.symm]
            · rfl
        | released => rfl
  | loadHead node object atPc objectEqual =>
      exact placed.plain thread _ rfl rfl rfl rfl
        (call_setRetired objectEqual rfl) (by simp_all) (by simp)
  | _ =>
      exact placed.plain thread _ rfl rfl rfl rfl (fun _ => rfl) (by simp_all)
        (by simp)

/-- Reclaiming takes a call from the list. -/
theorem syncStep
    {before after : State Value}
    (placed : Placed before)
    (step : SyncStep thread before after) :
    Placed after := by
  cases step with
  | loadActive currentGlobal record todo found =>
      refine placed.plain thread _ rfl rfl rfl rfl (fun _ => rfl)
        (by simp_all) ?_
      cases found.active <;> simp
  | loadLocalEpoch currentGlobal record todo found =>
      refine placed.plain thread _ rfl rfl rfl rfl (fun _ => rfl)
        (by simp_all) ?_
      split <;> simp
  | release currentGlobal cur toKeep object atPc objectEqual =>
      have present : before.At object.call (.node cur) := by
        simp [State.At, objectEqual]
      have called := (placed.called_iff object.call).mpr ⟨_, present⟩
      have elsewhere : ∀ place, place ≠ .node cur →
          ¬ before.At object.call place :=
        fun place different found =>
          different (placed.unique _ _ _ found present)
      refine placed.put object.call .released rfl ?_
        (Nat.lt_succ_of_lt (placed.earlier _ called)) ?_ ?_ ?_
      · intro other
        exact ⟨.inr, fun either => either.elim (fun same => same ▸ called) id⟩
      · exact List.nodup_cons.mpr ⟨elsewhere .released (by simp),
          placed.released⟩
      · intro place
        cases place with
        | loading other =>
            simp only [State.At, State.goto, Function.update_apply]
            split
            · simp
            · exact iff_of_false (elsewhere (.loading other) (by simp))
                (by simp)
        | node address =>
            simp only [State.At, State.goto, State.setRetired,
              Function.update_apply]
            split
            · simp
            · next different =>
              exact iff_of_false
                (elsewhere (.node address) (by simp [different])) (by simp)
        | released => simp [State.At, State.goto, State.setRetired]
      · intro other different place
        cases place with
        | loading otherThread =>
            simp only [State.At, State.goto, Function.update_apply]
            split
            · next same => simp [same, atPc]
            · rfl
        | node address =>
            simp only [State.At, State.goto, State.setRetired,
              Function.update_apply]
            split
            · next same => simp [same, objectEqual, different.symm]
            · rfl
        | released => simp [State.At, State.goto, State.setRetired, different]
  | keepFirst currentGlobal cur object atPc objectEqual =>
      exact placed.plain thread _ rfl rfl rfl rfl
        (call_setRetired objectEqual rfl) (by simp_all) (by simp)
  | keepLater currentGlobal cur toKeepHead toKeepTail object tailObject atPc
      objectEqual
      tailEqual =>
      refine placed.plain thread _ rfl rfl rfl rfl ?_ (by simp_all) (by simp)
      intro address
      simp only [State.goto, State.setRetired, Function.update_apply]
      split
      · next same => simp [same, tailEqual]
      · split
        · next same => simp [same, objectEqual]
        · rfl
  | loadPending toKeepHead toKeepTail tailObject atPc tailEqual =>
      exact placed.plain thread _ rfl rfl rfl rfl
        (call_setRetired tailEqual rfl) (by simp_all) (by simp)
  | _ =>
      exact placed.plain thread _ rfl rfl rfl rfl (fun _ => rfl) (by simp_all)
        (by simp)

end Placed

/-- By induction on the run. -/
theorem Reachable.placed
    {state : State Value}
    (reachable : Reachable isPtr state) :
    Placed state := by
  refine TransitionSystem.Reachable.invariant ?_ ?_ reachable
  · rintro state rfl
    exact Placed.initial
  · intro before after _ placed step
    cases step with
    | register thread step => exact placed.registerStep step
    | critical thread step => exact placed.sectionStep step
    | retire thread step => exact placed.retireStep step
    | sync thread step => exact placed.syncStep step

/-! ## The accounting theorem -/

/-- The call a thread is executing and has not handed over to the pending
list. -/
def State.calling (state : State Value) (thread : Thread) : Option
    (Call Value) :=
  match state.pc thread with
  | .retireLoadEpoch call => some call
  | .retireLoadHead node => (state.retired node).map RetiredObject.call
  | .retirePush node _ => (state.retired node).map RetiredObject.call
  | _ => none

/-- Where the books list a call: with its caller until the push succeeds, on the
pending list, in the private list of a reclaimer, or among the releases. -/
inductive Account
  | caller (thread : Thread)
  | pending
  | reclaimer (thread : Thread)
  | released
  deriving DecidableEq

/-- The account that lists the objects of a holder. -/
def Holder.account : Holder → Account
  | .pending => .pending
  | .caller thread => .caller thread
  | .reclaimer thread => .reclaimer thread

/-- The account that lists the calls at a place. -/
def Place.account (owner : Address → Option Holder) : Place → Account
  | .loading thread => .caller thread
  | .node address => (owner address).elim .released Holder.account
  | .released => .released

/-- A thread executes a call while the call, or its object, is with the
thread. -/
theorem Layout.calling_eq_some_iff
    {state : State Value}
    {held : Holder → List Address}
    {owner : Address → Option Holder}
    (layout : Layout state held owner)
    (thread : Thread)
    (call : Call Value) :
    state.calling thread = some call ↔
      state.At call (.loading thread) ∨
        ∃ address ∈ held (.caller thread), state.At call (.node address) := by
  have callerList := layout.caller thread
  simp only [State.calling, State.At]
  cases atPc : state.pc thread with
  | retireLoadHead node =>
      rw [atPc] at callerList
      rw [show held (.caller thread) = [node] from callerList]
      simp
  | retirePush node oldHead =>
      rw [atPc] at callerList
      rw [callerList.1]
      simp
  | _ =>
      rw [atPc] at callerList
      rw [show held (.caller thread) = [] from callerList]
      simp

section Amount

variable [DecidableEq Value]

/-- How many entries for a call a list of retired objects has. -/
def State.entries
    (state : State Value)
    (call : Call Value)
    (addresses : List Address) : Nat :=
  addresses.countP fun address =>
    decide ((state.retired address).map RetiredObject.call = some call)

/-- How often an account lists a call. -/
def State.amount
    (state : State Value)
    (pending : List Address)
    (reclaimer : Thread → List Address)
    (call : Call Value) : Account → Nat
  | .caller thread => if state.calling thread = some call then 1 else 0
  | .pending => state.entries call pending
  | .reclaimer thread => state.entries call (reclaimer thread)
  | .released => state.released.count call

/-- The object of a call is one entry of the list that holds it. -/
theorem Placed.entries_eq_one
    {state : State Value}
    (placed : Placed state)
    {addresses : List Address}
    (nodup : addresses.Nodup)
    (member : node ∈ addresses)
    (present : state.At call (.node node)) :
    state.entries call addresses = 1 := by
  have countEqual : state.entries call addresses = addresses.count node := by
    refine List.countP_congr fun address _ => ?_
    simp only [decide_eq_true_eq, beq_iff_eq]
    constructor
    · intro found
      exact Place.node.inj
        (placed.unique call (.node address) (.node node) found present)
    · rintro rfl
      exact present
  rw [countEqual, List.count_eq_one_of_mem nodup member]

/-- A call that is at none of the addresses. -/
theorem entries_eq_zero
    {state : State Value}
    {addresses : List Address}
    (absent : ∀ address ∈ addresses, ¬ state.At call (.node address)) :
    state.entries call addresses = 0 := by
  refine List.countP_eq_zero.mpr fun address member => ?_
  rw [decide_eq_true_eq]
  exact absent address member

section Listed

variable {state : State Value} {held : Holder → List Address}
  {owner : Address → Option Holder} {call : Call Value}

/-- The account of the place where a call is lists it once. -/
theorem Layout.amount_eq_one
    (layout : Layout state held owner)
    (placed : Placed state)
    (place : Place)
    (present : state.At call place) :
    state.amount (held .pending) (fun thread => held (.reclaimer thread)) call
      (place.account owner) = 1 := by
  cases place with
  | loading thread =>
      exact if_pos ((layout.calling_eq_some_iff thread call).mpr (.inl present))
  | node address =>
      have allocated : owner address ≠ none := by
        rw [Ne, layout.allocated]
        intro free
        simp [State.At, free] at present
      obtain ⟨holder, owned⟩ := Option.ne_none_iff_exists'.mp allocated
      have member := (layout.mem_iff holder address).mpr owned
      simp only [Place.account, owned, Option.elim_some]
      cases holder with
      | caller thread =>
          exact if_pos ((layout.calling_eq_some_iff thread call).mpr
            (.inr ⟨address, member, present⟩))
      | pending => exact placed.entries_eq_one (layout.nodup _) member present
      | reclaimer thread =>
          exact placed.entries_eq_one (layout.nodup _) member present
  | released => exact List.count_eq_one_of_mem placed.released present

/-- Only the accounts of places where a call is list it. -/
theorem Layout.amount_eq_zero
    (layout : Layout state held owner)
    (account : Account)
    (absent : ∀ place, state.At call place → place.account owner ≠ account) :
    state.amount (held .pending) (fun thread => held (.reclaimer thread)) call
      account = 0 := by
  have notHeld : ∀ holder : Holder, holder.account = account →
      ∀ address ∈ held holder, ¬ state.At call (.node address) := by
    intro holder accountEqual address member present
    refine absent (.node address) present ?_
    rw [Place.account, (layout.mem_iff holder address).mp member,
      Option.elim_some, accountEqual]
  cases account with
  | caller thread =>
      refine if_neg fun equal => ?_
      rcases (layout.calling_eq_some_iff thread call).mp equal with
        loading | ⟨address, member, present⟩
      · exact absent (.loading thread) loading rfl
      · exact notHeld (.caller thread) rfl address member present
  | pending => exact entries_eq_zero (notHeld .pending rfl)
  | reclaimer thread => exact entries_eq_zero (notHeld (.reclaimer thread) rfl)
  | released =>
      exact List.count_eq_zero.mpr fun present => absent .released present rfl

end Listed

/-- In every reachable state, whatever the interleaving, each call of
`autorelease` is listed exactly once: with the thread that still executes it, as
one entry of the pending list, as one entry of one reclaimer's private list, or
as one release.  No other call is listed anywhere. -/
theorem call_accounted_once
    (state : State Value)
    (reachable : Reachable isPtr state) :
    ∃ (pending : List Address) (reclaimer : Thread → List Address),
      Segment state.link state.pendingReclamation pending none ∧
      (∀ thread,
        ReclaimerList state.link (state.pc thread) (reclaimer thread)) ∧
      (∀ call ∈ state.called, ∃ account,
        state.amount pending reclaimer call account = 1 ∧
          ∀ other, other ≠ account →
            state.amount pending reclaimer call other = 0) ∧
      (∀ call, call ∉ state.called →
        ∀ account, state.amount pending reclaimer call account = 0) := by
  obtain ⟨held, owner, layout⟩ := Reachable.laidOut reachable
  have placed := Reachable.placed reachable
  refine ⟨held .pending, fun thread => held (.reclaimer thread), layout.pending,
    layout.reclaimer, ?_, ?_⟩
  · intro call called
    obtain ⟨place, present⟩ := (placed.called_iff call).mp called
    refine ⟨place.account owner, layout.amount_eq_one placed place present, ?_⟩
    intro other different
    refine layout.amount_eq_zero other fun otherPlace otherPresent => ?_
    rw [placed.unique call otherPlace place otherPresent present]
    exact different.symm
  · intro call notCalled account
    refine layout.amount_eq_zero account fun place present => ?_
    exact absurd ((placed.called_iff call).mpr ⟨place, present⟩) notCalled

/-- One thread retires two values and pushes the first: the first is on the
pending list, the second with the thread. -/
theorem call_accounted_once_of_run :
    ∃ state : State Unit,
      Reachable (fun _ => true) state ∧
      state.called = [⟨(), 4⟩, ⟨(), 0⟩] ∧
      state.pendingReclamation = some 0 ∧
      state.calling 0 = some ⟨(), 4⟩ ∧
      ∃ (pending : List Address) (reclaimer : Thread → List Address),
        Segment state.link state.pendingReclamation pending none ∧
        ∃ account, state.amount pending reclaimer ⟨(), 0⟩ account = 1 := by
  have run : Reachable (fun _ => true) (State.initial : State Unit) :=
    TransitionSystem.Reachable.of_initial rfl
  have run := run.tail (.retire 0 (.call _ () rfl rfl))
  have run := run.tail (.retire 0 (.loadEpoch _ _ 0 rfl rfl))
  have run := run.tail (.retire 0 (.loadHead _ 0 _ rfl rfl))
  have run := run.tail (.retire 0 (.push _ 0 none rfl rfl))
  have run := run.tail (.retire 0 (.call _ () rfl rfl))
  obtain ⟨pending, reclaimer, pendingSegment, -, listed, -⟩ :=
    call_accounted_once _ run
  obtain ⟨account, once, -⟩ := listed ⟨(), 0⟩
    (List.mem_cons_of_mem _ (List.mem_singleton.mpr rfl))
  exact ⟨_, run, rfl, rfl, rfl, pending, reclaimer, pendingSegment,
    account, once⟩

end Amount

end Ebr
end Runtime
end ClojureRt
