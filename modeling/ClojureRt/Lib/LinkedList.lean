import Mathlib.Data.List.Basic

/-!
# Singly linked segments

Memory is a partial map from addresses to their `next` fields.  A segment is the
list of addresses met on the way from one link to another.
-/

namespace ClojureRt
namespace LinkedList

variable {Address : Type*}

/-- The addresses on the way from `start` to `stop`. -/
def Segment
    (link : Address → Option (Option Address)) :
    Option Address → List Address → Option Address → Prop
  | start, [], stop => start = stop
  | start, address :: rest, stop =>
      start = some address ∧
        ∃ next, link address = some next ∧ Segment link next rest stop

namespace Segment

variable {link changed : Address → Option (Option Address)}
  {start middle stop : Option Address}

@[simp]
theorem nil_iff : Segment link start [] stop ↔ start = stop :=
  Iff.rfl

@[simp]
theorem cons_iff {address : Address} {rest : List Address} :
    Segment link start (address :: rest) stop ↔
      start = some address ∧
        ∃ next, link address = some next ∧ Segment link next rest stop :=
  Iff.rfl

theorem append
    {first second : List Address}
    (toMiddle : Segment link start first middle)
    (toStop : Segment link middle second stop) :
    Segment link start (first ++ second) stop := by
  induction first generalizing start with
  | nil =>
      obtain rfl := toMiddle
      exact toStop
  | cons address rest inductionHypothesis =>
      obtain ⟨startEqual, next, linkEqual, restSegment⟩ := toMiddle
      exact ⟨startEqual, next, linkEqual, inductionHypothesis restSegment⟩

/-- A segment with one more address at its end. -/
theorem concat
    {addresses : List Address}
    {last : Address}
    (segment : Segment link start addresses (some last))
    (linkEqual : link last = some stop) :
    Segment link start (addresses ++ [last]) stop :=
  segment.append ⟨rfl, stop, linkEqual, rfl⟩

/-- Writes elsewhere keep a segment. -/
theorem frame
    {addresses : List Address}
    (segment : Segment link start addresses stop)
    (agree : ∀ address ∈ addresses, changed address = link address) :
    Segment changed start addresses stop := by
  induction addresses generalizing start with
  | nil => exact segment
  | cons address rest inductionHypothesis =>
      obtain ⟨startEqual, next, linkEqual, restSegment⟩ := segment
      refine ⟨startEqual, next, ?_, ?_⟩
      · rw [agree address List.mem_cons_self, linkEqual]
      · exact inductionHypothesis restSegment
          fun other member => agree other (List.mem_cons_of_mem _ member)

/-- A segment that starts at an address has it first. -/
theorem eq_cons_of_start
    {addresses : List Address}
    {address : Address}
    (segment : Segment link (some address) addresses none) :
    ∃ rest, addresses = address :: rest := by
  cases addresses with
  | nil => cases segment
  | cons first rest =>
      obtain ⟨startEqual, -⟩ := segment
      cases startEqual
      exact ⟨rest, rfl⟩

/-- The segment from the end to itself is empty. -/
theorem eq_nil_of_none
    {addresses : List Address}
    (segment : Segment link none addresses none) :
    addresses = [] := by
  cases addresses with
  | nil => rfl
  | cons first rest => cases segment.1

/-- There is one way from a link to the end. -/
theorem eq_of_none
    {first second : List Address}
    (firstSegment : Segment link start first none)
    (secondSegment : Segment link start second none) :
    first = second := by
  induction first generalizing start second with
  | nil =>
      obtain rfl := firstSegment
      exact secondSegment.eq_nil_of_none.symm
  | cons address rest inductionHypothesis =>
      obtain ⟨rfl, next, linkEqual, restSegment⟩ := firstSegment
      obtain ⟨others, rfl⟩ := secondSegment.eq_cons_of_start
      obtain ⟨-, next', linkEqual', othersSegment⟩ := secondSegment
      rw [linkEqual, Option.some.injEq] at linkEqual'
      subst linkEqual'
      rw [inductionHypothesis restSegment othersSegment]

/-- The way on from an address that is met. -/
theorem from_mem
    {addresses : List Address}
    {address : Address}
    (segment : Segment link start addresses stop)
    (isMet : address ∈ addresses) :
    ∃ rest, rest.length < addresses.length ∧
      Segment link (some address) (address :: rest) stop := by
  induction addresses generalizing start with
  | nil => cases isMet
  | cons first rest inductionHypothesis =>
      obtain ⟨rfl, next, linkEqual, restSegment⟩ := segment
      rcases List.mem_cons.mp isMet with rfl | isLater
      · exact ⟨rest, Nat.lt_succ_self _, rfl, next, linkEqual, restSegment⟩
      · obtain ⟨later, shorter, laterSegment⟩ :=
          inductionHypothesis restSegment isLater
        exact ⟨later, Nat.lt_succ_of_lt shorter, laterSegment⟩

/-- The way to the end meets no address twice. -/
theorem nodup_of_none
    {addresses : List Address}
    (segment : Segment link start addresses none) :
    addresses.Nodup := by
  induction addresses generalizing start with
  | nil => exact List.nodup_nil
  | cons address rest inductionHypothesis =>
      have whole := segment
      obtain ⟨rfl, next, _, restSegment⟩ := segment
      refine List.nodup_cons.mpr ⟨?_, inductionHypothesis restSegment⟩
      intro isLater
      obtain ⟨later, shorter, laterSegment⟩ := restSegment.from_mem isLater
      have same := whole.eq_of_none laterSegment
      rw [List.cons.injEq] at same
      rw [same.2] at shorter
      exact Nat.lt_irrefl _ shorter

end Segment

end LinkedList
end ClojureRt
