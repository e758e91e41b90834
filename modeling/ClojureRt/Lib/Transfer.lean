import ClojureRt.Lib.Trade

/-!
# Transfers of references

Some references are given for others, and what is reached from the references of
somebody else stays as it is.  A transfer says nothing about the counts of
single objects, so it also describes what unknown code does with what it holds.
-/

namespace ClojureRt
namespace RefCount

variable {Object : Type} [Referencing Object]

/-- Some references are taken and others given. -/
structure Transfer (heap after : Heap Object) (taken given : Nat → Int) :
    Prop where
  excess : ∀ address,
    after.excess address = heap.excess address + (given address - taken address)
  frame : ∀ rest : Nat → Int, (∀ address, 0 ≤ rest address) →
    Backed heap (taken + rest) →
    ∀ address, Reached heap rest address →
      after.object? address = heap.object? address

theorem Trade.transfer
    {heap after : Heap Object}
    {taken given : Nat → Int}
    (trade : Trade heap after taken given) :
    Transfer heap after taken given where
  excess := trade.excess
  frame := trade.frame

namespace Transfer

variable
  {heap middle after : Heap Object}
  {more taken given taken' given' rest : Nat → Int}

theorem refl (heap : Heap Object) (held : Nat → Int) :
    Transfer heap heap held held :=
  (Trade.refl heap held).transfer

theorem of_eq
    (transfer : Transfer heap after taken given)
    (sameTaken : taken = taken')
    (sameGiven : given = given') : Transfer heap after taken' given' :=
  sameTaken ▸ sameGiven ▸ transfer

/-- What is given is backed, and so is what was held besides. -/
theorem backed
    (transfer : Transfer heap after taken given)
    (before : Backed heap (taken + rest))
    (nonnegGiven : ∀ address, 0 ≤ given address)
    (nonnegRest : ∀ address, 0 ≤ rest address) :
    Backed after (given + rest) where
  nonneg := nonneg_add nonnegGiven nonnegRest
  le_excess := by
    intro address
    have owned := before.le_excess address
    rw [Pi.add_apply] at owned
    rw [transfer.excess, Pi.add_apply]
    omega

theorem trans
    (first : Transfer heap middle taken given)
    (second : Transfer middle after given given')
    (nonnegGiven : ∀ address, 0 ≤ given address) :
    Transfer heap after taken given' where
  excess := by
    intro address
    rw [second.excess, first.excess]
    omega
  frame := by
    intro rest nonnegRest before address isReached
    have between := first.backed before nonnegGiven nonnegRest
    have reachedBetween : Reached middle rest address :=
      isReached.of_kept (first.frame rest nonnegRest before)
    rw [second.frame rest nonnegRest between address reachedBetween,
      first.frame rest nonnegRest before address isReached]

/-- References that are held all the time. -/
theorem keep
    (transfer : Transfer heap after taken given)
    (nonneg : ∀ address, 0 ≤ more address) :
    Transfer heap after (taken + more) (given + more) where
  excess := by
    intro address
    rw [transfer.excess, Pi.add_apply, Pi.add_apply]
    omega
  frame := by
    intro rest nonnegRest before address isReached
    apply transfer.frame (more + rest) (nonneg_add nonneg nonnegRest)
    · rwa [← add_assoc]
    · apply isReached.mono
      intro other
      have := nonneg other
      rw [Pi.add_apply]
      omega

/-- A part of what is held is transferred. -/
theorem andThen
    (first : Transfer heap middle taken (taken' + rest))
    (second : Transfer middle after taken' given')
    (nonneg : ∀ address, 0 ≤ taken' address)
    (nonnegRest : ∀ address, 0 ≤ rest address) :
    Transfer heap after taken (given' + rest) :=
  first.trans (second.keep nonnegRest) (nonneg_add nonneg nonnegRest)

end Transfer

namespace Program

variable {heap : Heap Object} {address : Nat}

/-- Another reference to an object that is there. -/
theorem Runs.retain_transfer
    (present : ∃ object, heap.object? address = some object)
    {post : Unit → Heap Object → Prop}
    (holds : ∀ after, after.object? = heap.object? →
      Transfer heap after 0 (own address) →
      post () after) :
    Runs (Program.retain address) heap post := by
  obtain ⟨object, found⟩ := present
  apply Runs.retain (Effect.refl heap) found
  intro after same effect
  refine holds after same ⟨?_, fun _ _ _ _ _ => by rw [same]⟩
  intro other
  rw [effect.excess, Pi.add_apply, Pi.zero_apply]
  omega

theorem Runs.release_transfer
    (backed : Backed heap (own address))
    {post : Unit → Heap Object → Prop}
    (holds : ∀ after, Transfer heap after (own address) 0 → post () after) :
    Runs (Program.release address) heap post := by
  apply Runs.release_trade backed
  intro after _ trade
  exact holds after trade.transfer

end Program

end RefCount
end ClojureRt
