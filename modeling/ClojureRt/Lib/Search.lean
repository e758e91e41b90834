import Mathlib.Combinatorics.Pigeonhole
import Mathlib.Logic.Relation
import Mathlib.Order.WellFounded

/-!
# Searching a graph without marks

A search looks at a vertex and then, one after the other, at its successors, and
stops at the first vertex that is a target.  It does not remember where it was
before.  So a search that finds nothing comes to an end only where no path goes
on for ever.

A walk along the only successor of each vertex ends early or not at all: among
finitely many vertices it comes back to one where it was.
-/

namespace ClojureRt
namespace Search

variable {Vertex : Type*}

/-- The first positive answer among those for some vertices. -/
def anyOf (answer : Vertex → Option Bool) : List Vertex → Option Bool
  | [] => some false
  | vertex :: rest =>
      match answer vertex with
      | none => none
      | some true => some true
      | some false => anyOf answer rest

/-- The search, which has no answer where the fuel does not suffice. -/
def search (successors : Vertex → List Vertex) (isTarget : Vertex → Bool) :
    Nat → Vertex → Option Bool
  | 0, _ => none
  | fuel + 1, vertex =>
      if isTarget vertex then some true
      else anyOf (search successors isTarget fuel) (successors vertex)

theorem anyOf_append (answer : Vertex → Option Bool)
    (first second : List Vertex) :
    anyOf answer (first ++ second) =
      match anyOf answer first with
      | none => none
      | some true => some true
      | some false => anyOf answer second := by
  induction first with
  | nil => rfl
  | cons vertex rest inductionHypothesis =>
      rw [List.cons_append, anyOf, anyOf]
      cases answer vertex with
      | none => rfl
      | some found =>
          cases found with
          | true => rfl
          | false => exact inductionHypothesis

theorem exists_of_anyOf_true
    {answer : Vertex → Option Bool}
    {vertices : List Vertex}
    (found : anyOf answer vertices = some true) :
    ∃ vertex ∈ vertices, answer vertex = some true := by
  induction vertices with
  | nil => cases found
  | cons vertex rest inductionHypothesis =>
      rw [anyOf] at found
      cases isAnswer : answer vertex with
      | none =>
          rw [isAnswer] at found
          cases found
      | some first =>
          cases first with
          | true => exact ⟨vertex, List.mem_cons_self, isAnswer⟩
          | false =>
              rw [isAnswer] at found
              obtain ⟨other, isIn, isTrue⟩ := inductionHypothesis found
              exact ⟨other, List.mem_cons_of_mem _ isIn, isTrue⟩

theorem anyOf_eq_false
    {answer : Vertex → Option Bool}
    {vertices : List Vertex} :
    anyOf answer vertices = some false ↔ ∀ vertex ∈ vertices,
      answer vertex = some false := by
  induction vertices with
  | nil => simp [anyOf]
  | cons vertex rest inductionHypothesis =>
      rw [anyOf, List.forall_mem_cons, ← inductionHypothesis]
      cases answer vertex with
      | none => simp
      | some found => cases found <;> simp

theorem exists_anyOf
    {answer : Vertex → Option Bool}
    {vertices : List Vertex}
    (answered : ∀ vertex ∈ vertices, ∃ found, answer vertex = some found) :
    ∃ found, anyOf answer vertices = some found := by
  induction vertices with
  | nil => exact ⟨false, rfl⟩
  | cons vertex rest inductionHypothesis =>
      rw [List.forall_mem_cons] at answered
      obtain ⟨found, isFound⟩ := answered.1
      rw [anyOf, isFound]
      cases found with
      | true => exact ⟨true, rfl⟩
      | false => exact inductionHypothesis answered.2

section Search

variable {successors : Vertex → List Vertex} {isTarget : Vertex → Bool}

/-- A vertex leads to its successors. -/
def Edge (successors : Vertex → List Vertex) (source target : Vertex) : Prop :=
  target ∈ successors source

/-- No path from the vertex goes on for ever. -/
def Ends (successors : Vertex → List Vertex) (vertex : Vertex) : Prop :=
  Acc (fun target source => Edge successors source target) vertex

/-- A vertex from which all paths end is on no cycle. -/
theorem Ends.acyclic
    {vertex : Vertex}
    (ends : Ends successors vertex) :
    ¬ Relation.TransGen (Edge successors) vertex vertex := by
  induction ends with
  | intro vertex _ inductionHypothesis =>
      intro cycle
      obtain ⟨next, edge, path⟩ := Relation.TransGen.head'_iff.mp cycle
      exact inductionHypothesis next edge (Relation.TransGen.tail' path edge)

/-- A target can be reached. -/
def Leads (successors : Vertex → List Vertex) (isTarget : Vertex → Bool)
    (vertex : Vertex) :
    Prop :=
  ∃ target, Relation.ReflTransGen (Edge successors) vertex target ∧
    isTarget target = true

theorem Leads.of_edge
    {source target : Vertex}
    (edge : Edge successors source target)
    (leads : Leads successors isTarget target) :
    Leads successors isTarget source := by
  obtain ⟨last, path, found⟩ := leads
  exact ⟨last, path.head edge, found⟩

theorem leads_iff (vertex : Vertex) :
    Leads successors isTarget vertex ↔
      isTarget vertex = true ∨ ∃ next ∈ successors vertex,
        Leads successors isTarget next := by
  constructor
  · rintro ⟨last, path, found⟩
    rcases path.cases_head with rfl | ⟨next, edge, later⟩
    · exact Or.inl found
    · exact Or.inr ⟨next, edge, last, later, found⟩
  · rintro (found | ⟨next, edge, leads⟩)
    · exact ⟨vertex, .refl, found⟩
    · exact leads.of_edge edge

/-- What is found can be reached. -/
theorem leads_of_search
    {fuel : Nat}
    {vertex : Vertex}
    (found : search successors isTarget fuel vertex = some true) :
    Leads successors isTarget vertex := by
  induction fuel generalizing vertex with
  | zero => cases found
  | succ fuel inductionHypothesis =>
      rw [leads_iff]
      rw [search] at found
      split at found
      · next isFound => exact Or.inl isFound
      · obtain ⟨next, edge, isTrue⟩ := exists_of_anyOf_true found
        exact Or.inr ⟨next, edge, inductionHypothesis isTrue⟩

/-- The search finds nothing only where nothing is there to be found and all
paths end. -/
theorem ends_of_search
    {fuel : Nat}
    {vertex : Vertex}
    (found : search successors isTarget fuel vertex = some false) :
    Ends successors vertex ∧ ¬ Leads successors isTarget vertex := by
  induction fuel generalizing vertex with
  | zero => cases found
  | succ fuel inductionHypothesis =>
      rw [search] at found
      split at found
      · cases found
      · next isOther =>
          rw [anyOf_eq_false] at found
          constructor
          · constructor
            intro next edge
            exact (inductionHypothesis (found next edge)).1
          · rw [leads_iff]
            rintro (isFound | ⟨next, edge, leads⟩)
            · exact isOther isFound
            · exact (inductionHypothesis (found next edge)).2 leads

/-- More fuel gives the same answer. -/
theorem search_of_le
    {fuel more : Nat}
    (enough : fuel ≤ more)
    {vertex : Vertex}
    {found : Bool}
    (isFound : search successors isTarget fuel vertex = some found) :
    search successors isTarget more vertex = some found := by
  induction fuel generalizing more vertex found with
  | zero => cases isFound
  | succ fuel inductionHypothesis =>
      obtain ⟨more, rfl⟩ : ∃ rest, more = rest + 1 := ⟨more - 1, by omega⟩
      rw [search] at isFound ⊢
      split at isFound
      · next isTarget => rwa [if_pos isTarget]
      · next isOther =>
          rw [if_neg isOther]
          generalize successors vertex = vertices at isFound
          induction vertices with
          | nil => exact isFound
          | cons first rest laterHypothesis =>
              rw [anyOf] at isFound ⊢
              cases isFirst : search successors isTarget fuel first with
              | none =>
                  rw [isFirst] at isFound
                  cases isFound
              | some answer =>
                  rw [isFirst] at isFound
                  rw [
                    inductionHypothesis (Nat.le_of_succ_le_succ enough) isFirst]
                  cases answer with
                  | true => exact isFound
                  | false => exact laterHypothesis isFound

/-- Where all paths end, the search does. -/
theorem exists_search
    (isTarget : Vertex → Bool)
    {vertex : Vertex}
    (ends : Ends successors vertex) :
    ∃ fuel found, search successors isTarget fuel vertex = some found := by
  induction ends with
  | intro vertex _ inductionHypothesis =>
      have together (vertices : List Vertex)
          (areNext : ∀ next ∈ vertices, Edge successors vertex next) :
          ∃ fuel, ∀ next ∈ vertices, ∃ found,
            search successors isTarget fuel next = some found := by
        induction vertices with
        | nil => exact ⟨0, by simp⟩
        | cons first rest laterHypothesis =>
            rw [List.forall_mem_cons] at areNext
            obtain ⟨fuel, found, isFound⟩ := inductionHypothesis first areNext.1
            obtain ⟨later, areFound⟩ := laterHypothesis areNext.2
            refine ⟨max fuel later, List.forall_mem_cons.mpr ⟨⟨found, ?_⟩, ?_⟩⟩
            · exact search_of_le (Nat.le_max_left _ _) isFound
            · intro next isLater
              obtain ⟨answer, isAnswer⟩ := areFound next isLater
              exact ⟨answer, search_of_le (Nat.le_max_right _ _) isAnswer⟩
      obtain ⟨fuel, areFound⟩ := together (successors vertex) fun _ edge => edge
      refine ⟨fuel + 1, ?_⟩
      rw [search]
      split
      · exact ⟨true, rfl⟩
      · exact exists_anyOf areFound

/-- The search answers no exactly where all paths end and none of them leads to
a target. -/
theorem search_false_iff (vertex : Vertex) :
    (∃ fuel, search successors isTarget fuel vertex = some false) ↔
      Ends successors vertex ∧ ¬ Leads successors isTarget vertex := by
  constructor
  · rintro ⟨fuel, found⟩
    exact ends_of_search found
  · rintro ⟨ends, unreached⟩
    obtain ⟨fuel, found, isFound⟩ := exists_search isTarget ends
    cases found with
    | true => exact absurd (leads_of_search isFound) unreached
    | false => exact ⟨fuel, isFound⟩

/-- Where all paths end, the search answers yes exactly where a target can be
reached. -/
theorem search_true_iff
    {vertex : Vertex}
    (ends : Ends successors vertex) :
    (∃ fuel, search successors isTarget fuel vertex = some true) ↔
      Leads successors isTarget vertex := by
  constructor
  · rintro ⟨fuel, found⟩
    exact leads_of_search found
  · intro leads
    obtain ⟨fuel, found, isFound⟩ := exists_search isTarget ends
    cases found with
    | true => exact ⟨fuel, isFound⟩
    | false => exact absurd leads (ends_of_search isFound).2

end Search

/-! ## Walks

Where a vertex has one successor at most, there is one walk from it. -/

section Walk

variable {next : Vertex → Option Vertex}

/-- Where a walk is after some steps. -/
def walk (next : Vertex → Option Vertex) : Nat → Vertex → Option Vertex
  | 0, vertex => some vertex
  | steps + 1, vertex => (next vertex).bind (walk next steps)

theorem walk_add (first second : Nat) (vertex : Vertex) :
    walk next (first + second) vertex = (walk next first vertex).bind
      (walk next second) := by
  induction first generalizing vertex with
  | zero => rw [Nat.zero_add, walk, Option.bind_some]
  | succ first inductionHypothesis =>
      rw [Nat.succ_add, walk, walk, Option.bind_assoc]
      exact Option.bind_congr fun other _ => inductionHypothesis other

theorem walk_isSome_of_le
    {fewer steps : Nat}
    (noMore : fewer ≤ steps)
    {vertex : Vertex}
    (goesOn : (walk next steps vertex).isSome) :
    (walk next fewer vertex).isSome := by
  obtain ⟨rest, rfl⟩ := Nat.exists_eq_add_of_le noMore
  rw [walk_add] at goesOn
  cases isThere : walk next fewer vertex with
  | none =>
      rw [isThere] at goesOn
      cases goesOn
  | some other => rfl

/-- A walk that ends has a last vertex. -/
theorem exists_last_of_walk
    {steps : Nat}
    {vertex : Vertex}
    (ends : walk next steps vertex = none) :
    ∃ fewer last, fewer < steps ∧ walk next fewer vertex = some last ∧
      next last = none := by
  induction steps generalizing vertex with
  | zero => cases ends
  | succ steps inductionHypothesis =>
      cases isNext : next vertex with
      | none => exact ⟨0, vertex, Nat.succ_pos steps, rfl, isNext⟩
      | some other =>
          rw [walk, isNext, Option.bind_some] at ends
          obtain ⟨fewer, last, isLess, path, isLast⟩ := inductionHypothesis ends
          refine ⟨fewer + 1, last, Nat.succ_lt_succ isLess, ?_, isLast⟩
          rw [walk, isNext, Option.bind_some, path]

/-- A walk that comes to a vertex twice does not end. -/
theorem walk_isSome_of_repeats
    {first period : Nat}
    (positive : 0 < period)
    {vertex : Vertex}
    (goesOn : (walk next (first + period) vertex).isSome)
    (repeats : walk next first vertex = walk next (first + period) vertex)
    (steps : Nat) : (walk next steps vertex).isSome := by
  induction steps using Nat.strong_induction_on with
  | _ steps inductionHypothesis =>
      by_cases isEarly : steps ≤ first + period
      · exact walk_isSome_of_le isEarly goesOn
      · obtain ⟨rest, rfl⟩ := Nat.exists_eq_add_of_le (Nat.le_of_not_le isEarly)
        rw [walk_add, ← repeats, ← walk_add]
        exact inductionHypothesis (first + rest) (by omega)

/-- A walk that stays among some vertices and takes more steps than there are
vertices does not end. -/
theorem walk_isSome_of_among
    {among : Finset Vertex}
    {vertex : Vertex}
    (areAmong : ∀ source target, next source = some target → target ∈ among)
    (goesOn : (walk next (among.card + 1) vertex).isSome)
    (steps : Nat) : (walk next steps vertex).isSome := by
  classical
  have reached (index : Fin (among.card + 1)) :
      ∃ other ∈ among, walk next (index + 1) vertex = some other := by
    have isThere : (walk next (index + 1) vertex).isSome :=
      walk_isSome_of_le (Nat.succ_le_succ (Nat.le_of_lt_succ index.2)) goesOn
    obtain ⟨other, isOther⟩ := Option.isSome_iff_exists.mp isThere
    refine ⟨other, ?_, isOther⟩
    rw [walk_add] at isOther
    obtain ⟨source, _, last⟩ := Option.bind_eq_some_iff.mp isOther
    obtain ⟨target, isNext, isLast⟩ := Option.bind_eq_some_iff.mp last
    rw [walk, Option.some.injEq] at isLast
    subst isLast
    exact areAmong source _ isNext
  choose place isAmong isPlace using reached
  have tooMany :
      among.card < (Finset.univ : Finset (Fin (among.card + 1))).card := by
    simp
  obtain ⟨first, _, second, _, distinct, same⟩ :=
    Finset.exists_ne_map_eq_of_card_lt_of_maps_to tooMany fun index _ =>
      isAmong index
  wlog inOrder : first.1 < second.1 generalizing first second with reversed
  · apply reversed second (Finset.mem_univ _) first (Finset.mem_univ _)
      distinct.symm same.symm
    have := Fin.val_ne_of_ne distinct
    omega
  have isSecond : first.1 + 1 + (second.1 - first.1) = second.1 + 1 := by omega
  apply walk_isSome_of_repeats (Nat.sub_pos_of_lt inOrder)
  · rw [isSecond, isPlace second]
    rfl
  · rw [isSecond, isPlace first, isPlace second, same]

/-- A walk that stays among some vertices takes no more steps than there are
vertices. -/
theorem le_card_of_walk
    {among : Finset Vertex}
    {vertex last : Vertex}
    {steps : Nat}
    (areAmong : ∀ source target, next source = some target → target ∈ among)
    (path : walk next steps vertex = some last)
    (isLast : next last = none) : steps ≤ among.card := by
  by_contra isMore
  have goesOn : (walk next (among.card + 1) vertex).isSome :=
    walk_isSome_of_le (Nat.not_le.mp isMore) (by rw [path]; rfl)
  have onward := walk_isSome_of_among areAmong goesOn (steps + 1)
  rw [walk_add, path, Option.bind_some, walk, isLast] at onward
  cases onward

end Walk

end Search
end ClojureRt
