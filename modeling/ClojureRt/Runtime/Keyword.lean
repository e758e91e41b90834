import Mathlib.Logic.Function.Basic
import Mathlib.Data.Nat.ModEq

/-!
# Interning of keywords

`Keyword_create` looks its string up in `keywords`; if it is not there, it
allocates an id, puts the id into `keywordsInverted`, and then publishes it in
`keywords` unless another thread has been faster, in which case it takes its own
id out of `keywordsInverted` again.  Every constructor of `Step` is one
operation on one of the maps, or the allocation.
-/

namespace ClojureRt
namespace Runtime
namespace Keywords

/-- Threads are numbered. -/
abbrev Thread := Nat

/-- `RT_boxKeyword` of an id with 32 bits. -/
structure Keyword where
  id : BitVec 32
  deriving DecidableEq

/-- What `atomic_fetch_add(&minUnusedKeyword, 1)` gives after `allocated` calls;
the counter starts at 1. -/
def nthKeyword (allocated : Nat) : Keyword :=
  ⟨BitVec.ofNat 32 (1 + allocated)⟩

section Model

variable (Text : Type*)

/-- Where a thread stands in `Keyword_create`. -/
inductive Activity
  | idle
  -- ConcurrentHashMap_get found nothing
  | notFound (string : Text)
  | allocated (string : Text) (new : Keyword)
  | inverted (string : Text) (new : Keyword)
  -- the race is lost
  | lost (string : Text) (new existing : Keyword)

/-- The two maps, the number of ids allocated so far, and the threads. -/
structure State where
  keywords : Text → Option Keyword
  keywordsInverted : Keyword → Option Text
  allocated : Nat
  threads : Thread → Activity Text

/-- What a step returns to the caller of `Keyword_create`. -/
inductive Label
  | silent
  | returned (string : Text) (keyword : Keyword)

end Model

variable {Text : Type*}

/-- No keyword is there, and every thread is idle. -/
def State.initial : State Text where
  keywords := fun _ => none
  keywordsInverted := fun _ => none
  allocated := 0
  threads := fun _ => .idle

/-- The state with a thread that does something else. -/
def State.setThread
    (state : State Text)
    (thread : Thread)
    (activity : Activity Text) : State Text :=
  { state with threads := Function.update state.threads thread activity }

/-- The operations of `Keyword_create`. -/
inductive Step [DecidableEq Text] : State Text → Label Text → State Text → Prop
  | getFinds (state : State Text) (thread : Thread) (string : Text)
      (retVal : Keyword)
      (idle : state.threads thread = .idle)
      (found : state.keywords string = some retVal) :
      Step state (.returned string retVal) state
  | getFindsNothing (state : State Text) (thread : Thread) (string : Text)
      (idle : state.threads thread = .idle)
      (absent : state.keywords string = none) :
      Step state .silent (state.setThread thread (.notFound string))
  | allocate (state : State Text) (thread : Thread) (string : Text)
      (notFound : state.threads thread = .notFound string) :
      Step state .silent
        { state.setThread thread (.allocated string
          (nthKeyword state.allocated)) with
          allocated := state.allocated + 1 }
  | assocInverted (state : State Text) (thread : Thread) (string : Text)
      (new : Keyword)
      (allocated : state.threads thread = .allocated string new) :
      Step state .silent
        { state.setThread thread (.inverted string new) with
          keywordsInverted :=
            Function.update state.keywordsInverted new (some string) }
  | putIfAbsentPuts (state : State Text) (thread : Thread) (string : Text)
      (new : Keyword)
      (inverted : state.threads thread = .inverted string new)
      (absent : state.keywords string = none) :
      Step state (.returned string new)
        { state.setThread thread .idle with
          keywords := Function.update state.keywords string (some new) }
  | putIfAbsentFinds (state : State Text) (thread : Thread) (string : Text)
      (new existing : Keyword)
      (inverted : state.threads thread = .inverted string new)
      (found : state.keywords string = some existing) :
      Step state .silent (state.setThread thread (.lost string new existing))
  | dissocInverted (state : State Text) (thread : Thread) (string : Text)
      (new existing : Keyword)
      (lost : state.threads thread = .lost string new existing) :
      Step state (.returned string existing)
        { state.setThread thread .idle with
          keywordsInverted := Function.update state.keywordsInverted new none }
  -- a map is overcrowded, and the call throws
  | assocThrows (state : State Text) (thread : Thread) (string : Text)
      (new : Keyword)
      (allocated : state.threads thread = .allocated string new) :
      Step state .silent (state.setThread thread .idle)
  | putIfAbsentThrows (state : State Text) (thread : Thread) (string : Text)
      (new : Keyword)
      (inverted : state.threads thread = .inverted string new)
      (absent : state.keywords string = none) :
      Step state .silent (state.setThread thread .idle)

/-- Finitely many steps of any threads. -/
inductive Run [DecidableEq Text] : State Text → List (Label Text) →
    State Text → Prop
  | refl (state : State Text) : Run state [] state
  | snoc {start before after : State Text} {labels : List (Label Text)}
      {label : Label Text}
      (run : Run start labels before)
      (step : Step before label after) :
      Run start (labels ++ [label]) after

/-- Calls return the same keyword exactly for equal strings, and what they have
returned is in `keywordsInverted` with the string it was created from. -/
structure Bijective (labels : List (Label Text)) (after : State Text) :
    Prop where
  same : ∀ first second firstKeyword secondKeyword,
    .returned first firstKeyword ∈ labels →
      .returned second secondKeyword ∈ labels →
      (first = second ↔ firstKeyword = secondKeyword)
  inverted : ∀ string keyword, .returned string keyword ∈ labels →
    after.keywordsInverted keyword = some string

/-! ## Ids -/

theorem nthKeyword_injective
    {first second : Nat}
    (firstSmall : first < 2 ^ 32)
    (secondSmall : second < 2 ^ 32)
    (equal : nthKeyword first = nthKeyword second) :
    first = second := by
  have sameId := congrArg (fun keyword => keyword.id.toNat) equal
  simp only [nthKeyword, BitVec.toNat_ofNat] at sameId
  omega

/-- A keyword whose id has been allocated. -/
def Allocated (state : State Text) (keyword : Keyword) : Prop :=
  ∃ index, index < state.allocated ∧ keyword = nthKeyword index

/-- The id that a thread has allocated for the call it is in. -/
def Activity.id? : Activity Text → Option Keyword
  | .allocated _ new => some new
  | .inverted _ new => some new
  | .lost _ new _ => some new
  | _ => none

/-- What holds in a thread. -/
def Activity.Sound (state : State Text) : Activity Text → Prop
  | .inverted string new => state.keywordsInverted new = some string
  | .lost string _ existing => state.keywords string = some existing
  | _ => True

/-- `keywordsInverted` inverts `keywords`, and an id that a thread still works
on is its own and nobody's keyword yet. -/
structure Invariant (state : State Text) : Prop where
  inverts : ∀ string keyword, state.keywords string = some keyword →
    state.keywordsInverted keyword = some string
  published : ∀ string keyword, state.keywords string = some keyword →
    Allocated state keyword
  held : ∀ thread keyword, (state.threads thread).id? = some keyword →
    Allocated state keyword
  unpublished : ∀ thread keyword, (state.threads thread).id? = some keyword →
    ∀ string, state.keywords string ≠ some keyword
  apart : ∀ first second keyword, (state.threads first).id? = some keyword →
    (state.threads second).id? = some keyword → first = second
  sound : ∀ thread, (state.threads thread).Sound state

theorem invariant_initial : Invariant (State.initial : State Text) where
  inverts := by intro _ _ impossible; cases impossible
  published := by intro _ _ impossible; cases impossible
  held := by intro _ _ impossible; cases impossible
  unpublished := by intro _ _ impossible; cases impossible
  apart := by intro _ _ _ impossible; cases impossible
  sound := fun _ => trivial

/-! ## Steps keep the invariant -/

section Steps

variable {state : State Text}

theorem threads_setThread_self (thread : Thread) (activity : Activity Text) :
    (state.setThread thread activity).threads thread = activity := by
  simp [State.setThread]

theorem threads_setThread_of_ne
    {thread other : Thread}
    (activity : Activity Text)
    (different : other ≠ thread) :
    (state.setThread thread activity).threads other = state.threads other := by
  simp [State.setThread, different]

/-- A thread moves on with the id that it has, or drops it. -/
theorem Invariant.setThread
    (invariant : Invariant state)
    (thread : Thread)
    (activity : Activity Text)
    (keeps : ∀ keyword, activity.id? = some keyword →
      (state.threads thread).id? = some keyword)
    (sound : activity.Sound state) :
    Invariant (state.setThread thread activity) := by
  have was (other : Thread) (keyword : Keyword)
      (has : ((state.setThread thread activity).threads other).id? =
        some keyword) :
      (state.threads other).id? = some keyword := by
    by_cases same : other = thread
    · subst same
      rw [threads_setThread_self] at has
      exact keeps keyword has
    · rwa [threads_setThread_of_ne activity same] at has
  constructor
  · exact invariant.inverts
  · exact invariant.published
  · intro other keyword has
    exact invariant.held other keyword (was other keyword has)
  · intro other keyword has
    exact invariant.unpublished other keyword (was other keyword has)
  · intro first second keyword firstHas secondHas
    exact invariant.apart first second keyword (was first keyword firstHas)
      (was second keyword secondHas)
  · intro other
    by_cases same : other = thread
    · subst same
      rw [threads_setThread_self]
      cases activity <;> exact sound
    · rw [threads_setThread_of_ne activity same]
      have held := invariant.sound other
      cases isActivity :
        state.threads other <;> rw [isActivity] at held <;> exact held

/-- An operation on the maps that leaves `keywords` alone. -/
theorem Invariant.updateInverted
    (invariant : Invariant state)
    {new : Keyword}
    (value : Option Text)
    (unpublished : ∀ string, state.keywords string ≠ some new)
    (unused : ∀ thread string, state.threads thread ≠ .inverted string new) :
    Invariant
      { state with keywordsInverted := Function.update state.keywordsInverted new value } where
  inverts := by
    intro string keyword found
    have different : keyword ≠ new := by
      intro same
      exact unpublished string (by rw [← same]; exact found)
    simp only [Function.update_of_ne different]
    exact invariant.inverts string keyword found
  published := invariant.published
  held := invariant.held
  unpublished := invariant.unpublished
  apart := invariant.apart
  sound := by
    intro thread
    have held := invariant.sound thread
    cases isActivity : state.threads thread with
    | inverted string other =>
        rw [isActivity] at held
        have different : other ≠ new := by
          intro same
          exact unused thread string (by rw [← same]; exact isActivity)
        simp only [Activity.Sound, Function.update_of_ne different]
        exact held
    | _ =>
        rw [isActivity] at held
        exact held

/-- The allocation of an id. -/
theorem Invariant.allocate
    (invariant : Invariant state)
    {thread : Thread}
    {string : Text}
    (small : state.allocated < 2 ^ 32) :
    Invariant
      { state.setThread thread (.allocated string
        (nthKeyword state.allocated)) with
        allocated := state.allocated + 1 } := by
  have fresh (keyword : Keyword) (old : Allocated state keyword) :
      keyword ≠ nthKeyword state.allocated := by
    obtain ⟨index, below, isIndex⟩ := old
    intro same
    have := nthKeyword_injective (by omega) small (isIndex.symm.trans same)
    omega
  have has (other : Thread) (keyword : Keyword)
      (isId : ((state.setThread thread
        (.allocated string (nthKeyword state.allocated))).threads other).id? =
          some keyword) :
      other = thread ∧ keyword = nthKeyword state.allocated ∨
        other ≠ thread ∧ (state.threads other).id? = some keyword := by
    by_cases same : other = thread
    · subst same
      rw [threads_setThread_self] at isId
      exact Or.inl ⟨rfl, (Option.some.inj isId).symm⟩
    · rw [threads_setThread_of_ne _ same] at isId
      exact Or.inr ⟨same, isId⟩
  have later (keyword : Keyword) (old : Allocated state keyword) :
      ∃ index, index < state.allocated + 1 ∧ keyword = nthKeyword index := by
    obtain ⟨index, below, isIndex⟩ := old
    exact ⟨index, by omega, isIndex⟩
  constructor
  · exact invariant.inverts
  · intro other keyword found
    exact later keyword (invariant.published other keyword found)
  · intro other keyword isId
    rcases has other keyword isId with ⟨_, isNew⟩ | ⟨_, was⟩
    · exact ⟨state.allocated, Nat.lt_succ_self _, isNew⟩
    · exact later keyword (invariant.held other keyword was)
  · intro other keyword isId text found
    rcases has other keyword isId with ⟨_, isNew⟩ | ⟨_, was⟩
    · exact fresh keyword (invariant.published text keyword found) isNew
    · exact invariant.unpublished other keyword was text found
  · intro first second keyword firstId secondId
    rcases has first keyword firstId with ⟨isFirst, firstNew⟩ |
      ⟨_, firstWas⟩ <;>
      rcases has second keyword secondId with ⟨isSecond, secondNew⟩ |
        ⟨_, secondWas⟩
    · rw [isFirst, isSecond]
    · exact absurd firstNew
        (fresh keyword (invariant.held second keyword secondWas))
    · exact absurd secondNew
        (fresh keyword (invariant.held first keyword firstWas))
    · exact invariant.apart first second keyword firstWas secondWas
  · intro other
    by_cases same : other = thread
    · subst same
      simp only [threads_setThread_self]
      trivial
    · simp only [threads_setThread_of_ne _ same]
      have held := invariant.sound other
      cases isActivity :
        state.threads other <;> rw [isActivity] at held <;> exact held

/-- The publication of a keyword. -/
theorem Invariant.publish
    [DecidableEq Text]
    (invariant : Invariant state)
    {thread : Thread}
    {string : Text}
    {new : Keyword}
    (inverted : state.threads thread = .inverted string new)
    (absent : state.keywords string = none) :
    Invariant
      { state.setThread thread .idle with
        keywords := Function.update state.keywords string (some new) } := by
  have isId : (state.threads thread).id? = some new := by
    rw [inverted]
    rfl
  have isInverted : state.keywordsInverted new = some string := by
    have sound := invariant.sound thread
    rwa [inverted] at sound
  have found (text : Text) (keyword : Keyword)
      (isFound : Function.update state.keywords string (some new) text =
        some keyword) :
      text = string ∧ keyword = new ∨ state.keywords text = some keyword := by
    by_cases same : text = string
    · subst same
      rw [Function.update_self] at isFound
      exact Or.inl ⟨rfl, (Option.some.inj isFound).symm⟩
    · rw [Function.update_of_ne same] at isFound
      exact Or.inr isFound
  have has (other : Thread) (keyword : Keyword)
      (hasId : ((state.setThread thread .idle).threads other).id? =
        some keyword) :
      other ≠ thread ∧ (state.threads other).id? = some keyword := by
    by_cases same : other = thread
    · subst same
      rw [threads_setThread_self] at hasId
      cases hasId
    · rw [threads_setThread_of_ne _ same] at hasId
      exact ⟨same, hasId⟩
  constructor
  · intro text keyword isFound
    rcases found text keyword isFound with ⟨isText, isNew⟩ | was
    · rw [isText, isNew]
      exact isInverted
    · exact invariant.inverts text keyword was
  · intro text keyword isFound
    rcases found text keyword isFound with ⟨_, isNew⟩ | was
    · rw [isNew]
      exact invariant.held thread new isId
    · exact invariant.published text keyword was
  · intro other keyword hasId
    exact invariant.held other keyword (has other keyword hasId).2
  · intro other keyword hasId text isFound
    obtain ⟨different, was⟩ := has other keyword hasId
    rcases found text keyword isFound with ⟨_, isNew⟩ | earlier
    · rw [isNew] at was
      exact different (invariant.apart other thread new was isId)
    · exact invariant.unpublished other keyword was text earlier
  · intro first second keyword firstId secondId
    exact invariant.apart first second keyword (has first keyword firstId).2
      (has second keyword secondId).2
  · intro other
    by_cases same : other = thread
    · subst same
      simp only [threads_setThread_self]
      trivial
    · simp only [threads_setThread_of_ne _ same]
      have held := invariant.sound other
      cases isActivity : state.threads other with
      | lost text own existing =>
          rw [isActivity] at held
          have different : text ≠ string := by
            intro sameText
            simp only [Activity.Sound, sameText, absent] at held
            cases held
          simp only [Activity.Sound, Function.update_of_ne different]
          exact held
      | _ =>
          rw [isActivity] at held
          exact held

/-- What a step does to `keywords`: nothing is changed or taken out, and what
the step returns is there. -/
structure Publishes (before : State Text) (label : Label Text)
    (after : State Text) :
    Prop where
  kept : ∀ string keyword, before.keywords string = some keyword →
    after.keywords string = some keyword
  returned : ∀ string keyword, label = .returned string keyword →
    after.keywords string = some keyword

theorem allocated_le [DecidableEq Text] {before after : State Text}
    {label : Label Text}
    (step : Step before label after) :
    before.allocated ≤ after.allocated := by
  cases step <;> simp [State.setThread]

theorem invariant_step
    [DecidableEq Text]
    {before after : State Text}
    {label : Label Text}
    (invariant : Invariant before)
    (step : Step before label after)
    (bounded : after.allocated ≤ 2 ^ 32) :
    Invariant after ∧ Publishes before label after := by
  have same {after : State Text}
      (sameKeywords : after.keywords = before.keywords) :
      Publishes before (.silent : Label Text) after :=
    ⟨fun _ _ found =>
      by rw [sameKeywords, found], by intro _ _ impossible; cases impossible⟩
  have drops {thread : Thread} : ∀ keyword,
    (.idle : Activity Text).id? = some keyword →
      (before.threads thread).id? = some keyword := by
    intro _ impossible
    cases impossible
  cases step with
  | getFinds thread string retVal idle found =>
      refine ⟨invariant, fun _ _ isFound => isFound, ?_⟩
      intro text keyword isReturned
      cases isReturned
      exact found
  | getFindsNothing thread string idle absent =>
      refine ⟨invariant.setThread thread _ ?_ trivial, same rfl⟩
      intro _ impossible
      cases impossible
  | allocate thread string notFound =>
      exact ⟨invariant.allocate (Nat.lt_of_succ_le bounded), same rfl⟩
  | assocInverted thread string new allocated =>
      have isId : (before.threads thread).id? = some new := by
        rw [allocated]
        rfl
      have updated := invariant.updateInverted (some string)
        (invariant.unpublished thread new isId) (by
          intro other text isInverted
          have isOther : other = thread :=
            invariant.apart other thread new (by rw [isInverted]; rfl) isId
          rw [isOther, allocated] at isInverted
          cases isInverted)
      refine ⟨updated.setThread thread (.inverted string new) ?_ ?_, same rfl⟩
      · intro keyword isKeyword
        exact isId.trans isKeyword
      · simp [Activity.Sound]
  | putIfAbsentPuts thread string new inverted absent =>
      refine ⟨invariant.publish inverted absent, ?_, ?_⟩
      · intro text keyword found
        have different : text ≠ string := by
          intro sameText
          rw [sameText, absent] at found
          cases found
        simp only [Function.update_of_ne different]
        exact found
      · intro text keyword isReturned
        cases isReturned
        simp
  | putIfAbsentFinds thread string new existing inverted found =>
      refine ⟨invariant.setThread thread (.lost string new existing) ?_ found,
        same rfl⟩
      intro keyword isKeyword
      rw [inverted]
      exact isKeyword
  | dissocInverted thread string new existing lost =>
      have isId : (before.threads thread).id? = some new := by
        rw [lost]
        rfl
      have isExisting : before.keywords string = some existing := by
        have sound := invariant.sound thread
        rwa [lost] at sound
      have updated := invariant.updateInverted none
        (invariant.unpublished thread new isId) (by
          intro other text isInverted
          have isOther : other = thread :=
            invariant.apart other thread new (by rw [isInverted]; rfl) isId
          rw [isOther, lost] at isInverted
          cases isInverted)
      refine ⟨updated.setThread thread .idle drops trivial,
        fun _ _ found => found, ?_⟩
      intro text keyword isReturned
      cases isReturned
      exact isExisting
  | assocThrows thread string new allocated =>
      exact ⟨invariant.setThread thread .idle drops trivial, same rfl⟩
  | putIfAbsentThrows thread string new inverted absent =>
      exact ⟨invariant.setThread thread .idle drops trivial, same rfl⟩

end Steps

/-! ## Runs -/

/-- What every call has returned is in `keywords`. -/
theorem returned_mem_keywords
    [DecidableEq Text]
    {after : State Text}
    {labels : List (Label Text)}
    (run : Run State.initial labels after)
    (bounded : after.allocated ≤ 2 ^ 32) :
    Invariant after ∧ ∀ string keyword, .returned string keyword ∈ labels →
      after.keywords string = some keyword := by
  generalize isStart : State.initial = start at run
  induction run with
  | refl =>
      subst isStart
      refine ⟨invariant_initial, ?_⟩
      intro _ _ member
      cases member
  | snoc run step inductionHypothesis =>
      obtain ⟨invariant, earlier⟩ :=
        inductionHypothesis (le_trans (allocated_le step) bounded)
      obtain ⟨invariantAfter, publishes⟩ :=
        invariant_step invariant step bounded
      refine ⟨invariantAfter, ?_⟩
      intro string keyword member
      rcases List.mem_append.mp member with before | now
      · exact publishes.kept string keyword (earlier string keyword before)
      · exact publishes.returned string keyword (List.mem_singleton.mp now).symm

/-- Keywords are interned, whatever the threads do, as long as the ids last. -/
theorem create_bijective
    [DecidableEq Text]
    {after : State Text}
    {labels : List (Label Text)}
    (run : Run State.initial labels after)
    (bounded : after.allocated < 2 ^ 32) :
    Bijective labels after := by
  obtain ⟨invariant, isKeyword⟩ :=
    returned_mem_keywords run (Nat.le_of_lt bounded)
  constructor
  · intro first second firstKeyword secondKeyword firstReturned secondReturned
    have firstFound := isKeyword first firstKeyword firstReturned
    have secondFound := isKeyword second secondKeyword secondReturned
    constructor
    · intro same
      subst same
      exact Option.some.inj (firstFound.symm.trans secondFound)
    · intro same
      subst same
      have firstInverted := invariant.inverts first firstKeyword firstFound
      have secondInverted := invariant.inverts second firstKeyword secondFound
      exact Option.some.inj (firstInverted.symm.trans secondInverted)
  · intro string keyword isReturned
    exact invariant.inverts string keyword (isKeyword string keyword isReturned)

/-- One thread creates a keyword, and another one loses the race for it. -/
theorem create_bijective_twice :
    ∃ after : State String, Bijective
      [.silent, .silent, .silent, .silent, .silent, .silent, .returned "a" (nthKeyword 0),
        .silent, .returned "a" (nthKeyword 0)] after := by
  have start : Run (State.initial : State String) [] State.initial := .refl _
  have first := (start.snoc (.getFindsNothing _ 0 "a" rfl rfl)).snoc
    (.getFindsNothing _ 1 "a" rfl rfl)
  have allocated := (first.snoc (.allocate _ 0 "a" rfl)).snoc (.allocate _ 1 "a" rfl)
  have inverted := (allocated.snoc (.assocInverted _ 0 "a" _ rfl)).snoc
    (.assocInverted _ 1 "a" _ rfl)
  have created := inverted.snoc (.putIfAbsentPuts _ 0 "a" _ rfl rfl)
  have lost := created.snoc (.putIfAbsentFinds _ 1 "a" _ _ rfl rfl)
  have returned := lost.snoc (.dissocInverted _ 1 "a" _ _ rfl)
  exact ⟨_, create_bijective returned (by decide)⟩

end Keywords
end Runtime
end ClojureRt
