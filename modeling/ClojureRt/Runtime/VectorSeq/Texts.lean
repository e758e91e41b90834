import ClojureRt.Runtime.VectorSeq.Movements

/-!
# Texts of seqs

The text of a seq is that of its elements with blanks between them, in
parentheses.
-/

open ClojureRt.Runtime.Vector
  (PersistentVector PersistentVectorNode Layout Lays addresses refs refs_pointer
    refs_boxNil refs_nonneg)

namespace ClojureRt
namespace Runtime
namespace VectorSeq

open RefCount RefCount.Program
open Sharing (Address RTValue)

/-! ## Texts -/

/-- Texts, each after its separator. -/
def joined : Bool → List String → String
  | _, [] => ""
  | isFirst, text :: texts => separator isFirst ++ text ++ joined false texts

/-- The texts with blanks between them. -/
theorem joined_true (texts : List String) : joined true texts = " ".intercalate texts := by
  induction texts with
  | nil => rfl
  | cons text texts inductionHypothesis =>
      cases texts with
      | nil => simp [joined, separator]
      | cons next texts =>
          rw [String.intercalate_cons_cons, ← inductionHypothesis]
          simp [joined, separator, String.append_assoc]

section Texts

variable
  {heap : SeqHeap}
  {self : Address}
  {it : PersistentVectorIterator}
  {vector : PersistentVector}
  {layout : Layout}
  {position : Nat}

/-- The text of a value whose reference is only there for it. -/
theorem runs_text
    {text : RTValue → String}
    {value : RTValue}
    (backed : Backed heap (refs value))
    {post : String → SeqHeap → Prop}
    (holds : ∀ after, Trade heap after (refs value) 0 →
      post (text value) after) :
    Runs (toString text value) heap post := by
  unfold toString
  apply Runs.bind
  apply runs_releaseValue backed
  intro after release
  exact Runs.pure (holds after release)

theorem runs_toStringFrom
    (text : RTValue → String)
    {rest : Address → Int}
    (restNonneg : ∀ address, 0 ≤ rest address)
    {remaining : Nat}
    {isFirst : Bool}
    {res : String}
    (isAt : At heap it vector layout position)
    (isRemaining : position + remaining = layout.elements.length)
    (reached : Reached heap rest it.parent)
    (backed : Backed heap rest) :
    Runs (ChunkedSeq.toStringFrom text remaining it isFirst res) heap
      fun result after =>
      result = res ++
        joined isFirst ((layout.elements.drop position).map text) ∧
        Trade heap after 0 0 := by
  induction remaining generalizing heap it position isFirst res with
  | zero =>
      have := isAt.inside
      omega
  | succ remaining inductionHypothesis =>
      have inside := isAt.inside
      have isElement := List.getElem?_eq_getElem inside
      have start : Backed heap (0 + rest) := backed.of_eq (zero_add _).symm
      rw [List.drop_eq_getElem_cons inside, List.map_cons, joined,
        ← String.append_assoc, ← String.append_assoc, ChunkedSeq.toStringFrom]
      apply Runs.bind
      apply runs_iteratorGet isAt isElement
      intro block node isNode isIn
      apply Runs.bind
      apply runs_retainValue backed.excess_nonneg
      · intro address isAddress
        refine ⟨block, _, object_of_node.mp isNode, ?_⟩
        exact List.mem_flatMap.mpr ⟨_, isIn, isAddress⟩
      intro retained _ retain
      have retainedBacked := retain.backed start (refs_nonneg _) restNonneg
      apply Runs.bind
      apply runs_text (retainedBacked.left (refs_nonneg _) restNonneg)
      intro released release
      have trade := retain.trans release (refs_nonneg _)
      have releasedAt := isAt.traded trade restNonneg start reached
      have releasedReached := trade.reached start restNonneg reached
      have releasedBacked :=
        (trade.backed start (fun _ => le_rfl) restNonneg).of_eq (zero_add _)
      apply Runs.bind
      apply runs_iteratorNext releasedAt
      · intro moved sameParent movedAt
        apply (inductionHypothesis movedAt (by omega)
          (sameParent ▸ releasedReached) releasedBacked).mono
        rintro result after ⟨rfl, last⟩
        exact ⟨rfl, trade.trans last fun _ => le_rfl⟩
      · intro moved _ _ isEnd
        have none : remaining = 0 := by omega
        subst none
        rw [List.drop_eq_nil_iff.mpr (Nat.le_of_eq isEnd.symm), List.map_nil,
          joined, String.append_empty]
        exact Runs.pure ⟨rfl, trade⟩

/-- The text of a seq. -/
theorem SeqAt.runs_toString
    (text : RTValue → String)
    (seqAt : SeqAt heap self it vector layout position)
    (backed : Backed heap (own self)) :
    Runs (ChunkedSeq.toString text self) heap fun result after =>
      result = "(" ++ " ".intercalate ((layout.elements.drop position).map text) ++ ")" ∧
        Trade heap after (own self) 0 := by
  have isAt := seqAt.isAt
  have inside := isAt.inside
  unfold ChunkedSeq.toString
  apply seqAt.runs_load
  apply Runs.bind
  apply runs_loadVector isAt.lays.found
  rw [isAt.lays.fits.count, isAt.index]
  apply Runs.bind
  apply (runs_toStringFrom text (own_nonneg self) isAt (by omega) seqAt.reached
    backed).mono
  rintro res between ⟨rfl, trade⟩
  have kept := (trade.keep (own_nonneg self)).of_eq (zero_add _) (zero_add _)
  apply runs_releaseSelf (kept.given_backed backed (own_nonneg self))
  intro after release
  rw [joined_true]
  exact ⟨rfl, kept.trans release (own_nonneg self)⟩

end Texts

end VectorSeq
end Runtime
end ClojureRt
