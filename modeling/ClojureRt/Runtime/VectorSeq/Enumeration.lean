import ClojureRt.Runtime.VectorSeq.Reverse
import ClojureRt.Runtime.VectorSeq.SeqReduction

/-!
# Enumeration

A chunked seq is moved from the first position by any of the movements, with or
without other references to it, and stays at the position that the movements
lead to.  Taking `first` and `next` until nil gives the elements from there on,
and the elements backwards for a reverse seq.
-/

open ClojureRt.Runtime.Vector
  (PersistentVector Layout Lays addresses refs refs_pointer refs_boxNil
    refs_nonneg)

namespace ClojureRt
namespace Runtime
namespace VectorSeq

open RefCount RefCount.Program
open Sharing (Address RTValue)

/-! ## Movements -/

/-- The movements of a chunked seq, and a reference that somebody keeps. -/
inductive Movement
  | next
  | chunkedNext
  | drop (n : BitVec 32)
  | keep
  deriving DecidableEq

namespace Movement

/-- The code of a movement. -/
def run (movement : Movement) (self : Address) : Code RTValue :=
  match movement with
  | next => ChunkedSeq.next self
  | chunkedNext => ChunkedSeq.chunkedNext self
  | drop n => ChunkedSeq.drop self n
  | keep => do
      retain self
      pure (.pointer self)

/-- The position that a movement leads to. -/
def target (movement : Movement) (position : Nat) : Nat :=
  match movement with
  | next => position + 1
  | chunkedNext => 32 * (position / 32) + 32
  | drop n => position + n.toInt.toNat
  | keep => position

theorem le_target (movement : Movement) (position : Nat) :
    position ≤ movement.target position := by
  cases movement with
  | next => exact Nat.le_succ position
  | chunkedNext =>
      have isTarget : chunkedNext.target position = 32 * (position / 32) + 32 :=
        rfl
      omega
  | drop n => exact Nat.le_add_right _ _
  | keep => exact le_rfl

end Movement

/-- Movements one after the other; nil stays nil. -/
def moveAll : List Movement → RTValue → Code RTValue
  | [], value => pure value
  | movement :: movements, .pointer self => do
      let value ← movement.run self
      moveAll movements value
  | _ :: _, .immediate word => pure (.immediate word)

/-- The position that movements lead to. -/
def positionAfter (movements : List Movement) (position : Nat) : Nat :=
  movements.foldl (fun position movement => movement.target position) position

theorem le_positionAfter (movements : List Movement) (position : Nat) :
    position ≤ positionAfter movements position := by
  induction movements generalizing position with
  | nil => exact le_rfl
  | cons movement movements inductionHypothesis =>
      exact (movement.le_target position).trans (inductionHypothesis _)

/-- Nil beyond the elements, else a seq at the position, which is owned. -/
def Arrives
    (vector : PersistentVector)
    (layout : Layout)
    (position : Nat)
    (result : RTValue)
    (after : SeqHeap) : Prop :=
  (layout.elements.length ≤ position ∧ result = .boxNil) ∨
    ∃ new it, result = .pointer new ∧
      SeqAt after new it vector layout position ∧
      Backed after (own new)

section Enumeration

variable
  {heap : SeqHeap}
  {self v : Address}
  {it : PersistentVectorIterator}
  {vector : PersistentVector}
  {layout : Layout}
  {position : Nat}

theorem arrives_of_moved
    {target : Nat}
    {result : RTValue}
    {after : SeqHeap}
    (backed : Backed heap (own self))
    (moved : SeqAt.Moved heap self vector layout target result after) :
    Arrives vector layout target result after := by
  obtain ⟨trade, isEnd | ⟨new, it, rfl, newAt⟩⟩ := moved
  · exact .inl isEnd
  · rw [refs_pointer] at trade
    exact .inr ⟨new, it, rfl, newAt, trade.given_backed backed (own_nonneg new)⟩

/-- One movement. -/
theorem SeqAt.runs_movement
    (seqAt : SeqAt heap self it vector layout position)
    (backed : Backed heap (own self))
    (movement : Movement) :
    Runs (movement.run self) heap
      (Arrives vector layout (movement.target position)) := by
  cases movement with
  | next =>
      exact (seqAt.runs_next backed).mono fun _ _ => arrives_of_moved backed
  | chunkedNext =>
      exact (seqAt.runs_chunkedNext backed).mono fun _ _ =>
        arrives_of_moved backed
  | drop n =>
      have isTarget : (Movement.drop n).target position = position +
        n.toInt.toNat := rfl
      rw [isTarget]
      rcases lt_or_ge 0 n.toInt with positive | nothing
      · have nonneg := Int.le_of_lt positive
        have isNumber : n.toInt.toNat = n.toNat := by
          rw [← SignedWords.toNat_of_nonneg nonneg, Int.toNat_natCast]
        rw [isNumber]
        exact (seqAt.runs_drop backed positive).mono fun _ _ =>
          arrives_of_moved backed
      · rw [Int.toNat_of_nonpos nothing]
        exact (seqAt.runs_drop_nothing nothing).mono fun _ _ =>
          arrives_of_moved backed
  | keep =>
      apply Runs.bind
      apply Runs.retain_own backed
      intro after same retain
      have keptBacked := retain.given_backed backed
        (nonneg_add (own_nonneg self) (own_nonneg self))
      refine Runs.pure (.inr ⟨self, it, rfl, seqAt.of_objects same, ?_⟩)
      exact keptBacked.left (own_nonneg self) (own_nonneg self)

/-- Any movements. -/
theorem runs_moveAll
    {result : RTValue}
    (arrives : Arrives vector layout position result heap)
    (movements : List Movement) :
    Runs (moveAll movements result) heap
      (Arrives vector layout (positionAfter movements position)) := by
  induction movements generalizing heap position result with
  | nil => exact Runs.pure arrives
  | cons movement movements inductionHypothesis =>
      obtain ⟨beyond, rfl⟩ | ⟨new, it, rfl, newAt, backed⟩ := arrives
      · exact Runs.pure (.inl ⟨beyond.trans (le_positionAfter _ position), rfl⟩)
      · apply Runs.bind
        apply (newAt.runs_movement backed movement).mono
        intro moved after movedArrives
        exact inductionHypothesis movedArrives

/-- `seq` gives a seq at the first position. -/
theorem runs_seq
    (lays : Lays (vectors heap) self vector layout)
    (backed : Backed heap (own self)) :
    Runs (seq self) heap (Arrives vector layout 0) := by
  have selfNonneg := own_nonneg self
  unfold seq
  apply Runs.bind
  apply runs_loadVector lays.found
  rw [lays.fits.count]
  split
  · next isEmpty =>
      apply runs_releaseSelf backed
      exact fun _ _ => .inl ⟨Nat.le_of_eq isEmpty, rfl⟩
  · next more =>
      apply Runs.bind
      apply runs_iterator lays (Nat.pos_of_ne_zero more)
      intro it isParent isAt
      have parentBacked := backed
      rw [← isParent] at parentBacked
      apply Runs.bind
      apply ChunkedSeq.runs_create parentBacked
      intro new created isNew kept create
      rw [isParent] at create
      have newNonneg := own_nonneg new
      have createdBacked :=
        create.given_backed backed (nonneg_add selfNonneg newNonneg)
      have createdAt : SeqAt created new it vector layout 0 :=
        ⟨isNew, isAt.of_kept kept⟩
      apply runs_releaseSelf (createdBacked.left selfNonneg newNonneg)
      intro after release
      have afterBacked :=
        release.backed createdBacked (fun _ => le_rfl) newNonneg
      refine .inr ⟨new, it, rfl, createdAt.of_owned release createdBacked, ?_⟩
      exact afterBacked.of_eq (zero_add _)

/-- `rseq` gives nil if the last index is negative as an `int32_t`, else a
reverse seq at it. -/
theorem runs_rseq
    (lays : Lays (vectors heap) self vector layout)
    (backed : Backed heap (own self))
    {last : BitVec 32}
    (isLast : last = BitVec.ofNat 32 (layout.elements.length - 1)) :
    Runs (rseq self) heap fun result after =>
      ((layout.elements.length = 0 ∨ last.toInt < 0) ∧ result = .boxNil) ∨
        ∃ new, result = .pointer new ∧
          ReverseAt after new self vector layout last.toNat ∧
          Backed after (own new) := by
  have selfNonneg := own_nonneg self
  unfold rseq
  apply Runs.bind
  apply runs_loadVector lays.found
  rw [lays.fits.count]
  split
  · next isEmpty =>
      apply runs_releaseSelf backed
      exact fun _ _ => .inl ⟨.inl isEmpty, rfl⟩
  · next more =>
      unfold ReverseSeq.create
      rw [← isLast]
      split
      · next negative =>
          apply Runs.bind
          apply Runs.pure
          apply runs_releaseSelf backed
          exact fun _ _ => .inl ⟨.inr negative, rfl⟩
      · next nonneg =>
          have isNumber := SignedWords.toNat_of_nonneg (not_lt.mp nonneg)
          have atMost := BitVec.toInt_lt (x := last)
          have references :
            Referencing.references (Object.reverseSeq ⟨self, last⟩) = [self] :=
            rfl
          have inside : last.toNat < layout.elements.length := by
            rw [isLast, BitVec.toNat_ofNat]
            have := Nat.mod_le (layout.elements.length - 1) (2 ^ 32)
            omega
          apply Runs.bind
          apply Runs.bind
          refine Runs.mono (runs_createSeq backed references
            fun new created isNew kept create => ?_) fun _ retained runs =>
              Runs.bind runs
          have newNonneg := own_nonneg new
          have createdBacked :=
            create.given_backed backed (nonneg_add selfNonneg newNonneg)
          have createdAt :
              ReverseAt created new self vector layout last.toNat := by
            refine ⟨?_, lays_of_kept lays kept, inside, by omega⟩
            rw [isNew, BitVec.ofNat_toNat, BitVec.setWidth_eq]
          apply Runs.pure
          apply runs_releaseSelf (createdBacked.left selfNonneg newNonneg)
          intro after release
          have afterBacked :=
            release.backed createdBacked (fun _ => le_rfl) newNonneg
          refine .inr ⟨new, rfl, createdAt.of_owned release createdBacked, ?_⟩
          exact afterBacked.of_eq (zero_add _)

/-! ## First and next until nil -/

/-- The elements from a position on. -/
theorem SeqAt.runs_enumerate
    {fuel : Nat}
    (seqAt : SeqAt heap self it vector layout position)
    (backed : Backed heap (own self))
    (enough : layout.elements.length - position ≤ fuel) :
    Runs (ChunkedSeq.enumerate fuel self) heap fun result _ =>
      result = layout.elements.drop position := by
  induction fuel generalizing heap self it position with
  | zero =>
      have inside := seqAt.isAt.inside
      omega
  | succ fuel inductionHypothesis =>
      have selfNonneg := own_nonneg self
      have inside := seqAt.isAt.inside
      have isElement := List.getElem?_eq_getElem inside
      rw [List.drop_eq_getElem_cons inside, ChunkedSeq.enumerate]
      apply Runs.bind
      apply Runs.retain_own backed
      intro retained same retain
      have retainedBacked :=
        retain.given_backed backed (nonneg_add selfNonneg selfNonneg)
      apply Runs.bind
      apply ((seqAt.of_objects same).runs_first
        (retainedBacked.left selfNonneg selfNonneg) isElement).mono
      rintro _ taken ⟨rfl, take⟩
      have takenAt := (seqAt.of_objects same).of_owned take retainedBacked
      have takenBacked :=
        (take.backed retainedBacked (refs_nonneg _) selfNonneg).right
        (refs_nonneg _) selfNonneg
      apply Runs.bind
      apply (takenAt.runs_next takenBacked).mono
      intro result after moved
      obtain ⟨beyond, rfl⟩ | ⟨new, it, rfl, newAt, newBacked⟩ :=
        arrives_of_moved takenBacked moved
      · rw [List.drop_eq_nil_iff.mpr beyond]
        exact Runs.pure rfl
      · apply Runs.bind
        apply (inductionHypothesis newAt newBacked (by omega)).mono
        rintro _ _ rfl
        exact Runs.pure rfl

/-- The elements up to a position, from the last one to the first. -/
theorem ReverseAt.runs_enumerate
    {fuel : Nat}
    (reverseAt : ReverseAt heap self v vector layout position)
    (backed : Backed heap (own self))
    (enough : position < fuel) :
    Runs (ReverseSeq.enumerate fuel self) heap fun result _ =>
      result = backwards layout position := by
  induction fuel generalizing heap self position with
  | zero => omega
  | succ fuel inductionHypothesis =>
      have selfNonneg := own_nonneg self
      have isElement := List.getElem?_eq_getElem reverseAt.inside
      rw [ReverseSeq.enumerate]
      apply Runs.bind
      apply Runs.retain_own backed
      intro retained same retain
      have retainedBacked :=
        retain.given_backed backed (nonneg_add selfNonneg selfNonneg)
      apply Runs.bind
      apply ((reverseAt.of_objects same).runs_first
        (retainedBacked.left selfNonneg selfNonneg) isElement).mono
      rintro _ taken ⟨rfl, take⟩
      have takenAt := (reverseAt.of_objects same).of_owned take retainedBacked
      have takenBacked :=
        (take.backed retainedBacked (refs_nonneg _) selfNonneg).right
        (refs_nonneg _) selfNonneg
      apply Runs.bind
      apply (takenAt.runs_next takenBacked).mono
      rintro result after ⟨trade, ⟨rfl, rfl⟩ | ⟨new, before, rfl, rfl, newAt⟩⟩
      · exact Runs.pure (backwards_zero isElement).symm
      · rw [refs_pointer] at trade
        have newBacked := trade.given_backed takenBacked (own_nonneg new)
        rw [backwards_succ isElement]
        apply Runs.bind
        apply (inductionHypothesis newAt newBacked (by omega)).mono
        rintro _ _ rfl
        exact Runs.pure rfl

end Enumeration

end VectorSeq
end Runtime
end ClojureRt
