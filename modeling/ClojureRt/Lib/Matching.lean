import Mathlib.Data.List.Basic
import Mathlib.Data.List.Forall2
import Mathlib.Data.List.Perm.Basic

/-!
# Matchings of two lists

Where every member of a list without repetitions has a partner in another list,
no two of them have the same one.  If the other list is no longer, its members
are the partners in some order.
-/

namespace ClojureRt
namespace Matching

variable {α β : Type*} {Partner : α → β → Prop} {Same : α → α → Prop}

/-- The partners of the members, and what is left of the other list. -/
theorem exists_partners
    (apart : ∀ first second partner, Partner first partner →
      Partner second partner →
      Same first second)
    {members : List α}
    {others : List β}
    (distinct : members.Pairwise fun first second => ¬ Same first second)
    (found : ∀ member ∈ members, ∃ other ∈ others, Partner member other) :
    ∃ partners rest, others.Perm (partners ++ rest) ∧
      List.Forall₂ Partner members partners := by
  induction members generalizing others with
  | nil => exact ⟨[], others, List.Perm.refl others, .nil⟩
  | cons member members inductionHypothesis =>
      rw [List.pairwise_cons] at distinct
      obtain ⟨partner, isOther, isPartner⟩ := found member List.mem_cons_self
      obtain ⟨before, behind, rfl⟩ := List.append_of_mem isOther
      have moved :
          (before ++ partner :: behind).Perm (partner :: (before ++ behind)) :=
        List.perm_middle
      have foundLater (later : α) (isMember : later ∈ members) :
          ∃ other ∈ before ++ behind, Partner later other := by
        obtain ⟨other, isAnother, isItsPartner⟩ :=
          found later (List.mem_cons_of_mem _ isMember)
        rcases List.mem_cons.mp (moved.mem_iff.mp isAnother) with isSame |
          isLeft
        · subst isSame
          exact absurd (apart member later other isPartner isItsPartner)
            (distinct.1 later isMember)
        · exact ⟨other, isLeft, isItsPartner⟩
      obtain ⟨partners, rest, permuted, matched⟩ :=
        inductionHypothesis distinct.2 foundLater
      refine ⟨partner :: partners, rest, moved.trans ?_,
        .cons isPartner matched⟩
      exact permuted.cons partner

/-- All members of the other list are partners. -/
theorem exists_perm
    (apart : ∀ first second partner, Partner first partner →
      Partner second partner →
      Same first second)
    {members : List α}
    {others : List β}
    (distinct : members.Pairwise fun first second => ¬ Same first second)
    (found : ∀ member ∈ members, ∃ other ∈ others, Partner member other)
    (noLonger : others.length ≤ members.length) :
    ∃ partners, others.Perm partners ∧
      List.Forall₂ Partner members partners := by
  obtain ⟨partners, rest, permuted, matched⟩ :=
    exists_partners apart distinct found
  have lengths := permuted.length_eq
  rw [List.length_append, ← matched.length_eq] at lengths
  have noRest : rest = [] := List.eq_nil_of_length_eq_zero (by omega)
  rw [noRest, List.append_nil] at permuted
  exact ⟨partners, permuted, matched⟩

theorem length_le
    (apart : ∀ first second partner, Partner first partner →
      Partner second partner →
      Same first second)
    {members : List α}
    {others : List β}
    (distinct : members.Pairwise fun first second => ¬ Same first second)
    (found : ∀ member ∈ members, ∃ other ∈ others, Partner member other) :
    members.length ≤ others.length := by
  obtain ⟨partners, rest, permuted, matched⟩ :=
    exists_partners apart distinct found
  rw [permuted.length_eq, List.length_append, matched.length_eq]
  exact Nat.le_add_right _ _

/-- Then every member of the other list is a partner, too. -/
theorem found_back
    (apart : ∀ first second partner, Partner first partner →
      Partner second partner →
      Same first second)
    {members : List α}
    {others : List β}
    (distinct : members.Pairwise fun first second => ¬ Same first second)
    (found : ∀ member ∈ members, ∃ other ∈ others, Partner member other)
    (noLonger : others.length ≤ members.length)
    {other : β}
    (isOther : other ∈ others) :
    ∃ member ∈ members, Partner member other := by
  obtain ⟨partners, permuted, matched⟩ :=
    exists_perm apart distinct found noLonger
  have isPartner := permuted.mem_iff.mp isOther
  clear permuted isOther noLonger found distinct
  induction matched with
  | nil => cases isPartner
  | cons first _ inductionHypothesis =>
      rcases List.mem_cons.mp isPartner with isFirst | isLater
      · subst isFirst
        exact ⟨_, List.mem_cons_self, first⟩
      · obtain ⟨member, isMember, itsPartner⟩ := inductionHypothesis isLater
        exact ⟨member, List.mem_cons_of_mem _ isMember, itsPartner⟩

/-- What agrees on partners agrees on the lists. -/
theorem map_eq_map
    {γ : Type*}
    {f : α → γ}
    {g : β → γ}
    {members : List α}
    {partners : List β}
    (matched : List.Forall₂ Partner members partners)
    (agree : ∀ member ∈ members, ∀ partner ∈ partners, Partner member partner →
      f member = g partner) :
    members.map f = partners.map g := by
  induction matched with
  | nil => rfl
  | cons first _ inductionHypothesis =>
      rw [List.map_cons, List.map_cons,
        agree _ List.mem_cons_self _ List.mem_cons_self first,
        inductionHypothesis fun member isMember partner isPartner =>
          agree member (List.mem_cons_of_mem _ isMember) partner
            (List.mem_cons_of_mem _ isPartner)]

end Matching
end ClojureRt
