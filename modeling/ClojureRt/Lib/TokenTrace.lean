import Mathlib

/-!
# Accounting for tokens along a trace

A run gives out and takes tokens of named resources.  Its trace lists the
changes, together with two kinds of bookkeeping: tokens that nobody will ever
take (leaks), and expectations about the tokens held at some point.  The audited
balance of a trace leaves the leaks out.
-/

namespace ClojureRt
namespace TokenTrace

variable {Name : Type}

/-- An entry of a trace. -/
inductive Event (Name : Type)
  | change (amount : Name → Int)
  | leak (amount : Name → Nat)
  | expect (condition : (Name → Int) → Prop)

namespace Event

/-- Tokens gained, or lost if negative. -/
def gain : Event Name → Name → Int
  | change amount, name => amount name
  | _, _ => 0

/-- Tokens gained that somebody accounts for. -/
def audited : Event Name → Name → Int
  | change amount, name => amount name
  | leak amount, name => -amount name
  | expect _, _ => 0

/-- Tokens leaked. -/
def leaked : Event Name → Name → Nat
  | leak amount, name => amount name
  | _, _ => 0

/-- What the event expects of the tokens held. -/
def Holds : Event Name → (Name → Int) → Prop
  | expect condition, tokens => condition tokens
  | _, _ => True

end Event

/-- Tokens gained by a trace. -/
def gain (trace : List (Event Name)) (name : Name) : Int :=
  (trace.map (·.gain name)).sum

/-- The balance of a trace without its leaks. -/
def audited (trace : List (Event Name)) (name : Name) : Int :=
  (trace.map (·.audited name)).sum

/-- Tokens leaked by a trace. -/
def leaked (trace : List (Event Name)) (name : Name) : Nat :=
  (trace.map (·.leaked name)).sum

@[simp]
theorem audited_nil (name : Name) : audited [] name = 0 :=
  rfl

@[simp]
theorem audited_cons (event : Event Name) (trace : List (Event Name))
    (name : Name) :
    audited (event :: trace) name = event.audited name +
      audited trace name := by
  simp [audited]

@[simp]
theorem audited_append (first second : List (Event Name)) (name : Name) :
    audited (first ++ second) name = audited first name +
      audited second name := by
  simp [audited]

@[simp]
theorem Event.audited_change (amount : Name → Int) (name : Name) :
    (Event.change amount).audited name = amount name :=
  rfl

@[simp]
theorem Event.audited_leak (amount : Name → Nat) (name : Name) :
    (Event.leak amount).audited name = -amount name :=
  rfl

@[simp]
theorem Event.audited_expect (condition : (Name → Int) → Prop) (name : Name) :
    (Event.expect condition).audited name = 0 :=
  rfl

theorem Event.gain_eq (event : Event Name) (name : Name) :
    event.gain name = event.audited name + event.leaked name := by
  cases event <;> simp [Event.gain, Event.audited, Event.leaked]

/-- Gained tokens are accounted for or leaked. -/
theorem gain_eq (trace : List (Event Name)) (name : Name) :
    gain trace name = audited trace name + leaked trace name := by
  induction trace with
  | nil => rfl
  | cons event rest inductionHypothesis =>
      have single := event.gain_eq name
      simp only [gain, audited, leaked, List.map_cons,
        List.sum_cons] at inductionHypothesis ⊢
      omega

/-- Nothing is leaked when every leak of the trace is empty. -/
theorem leaked_eq_zero_iff (trace : List (Event Name)) :
    (∀ name, leaked trace name = 0) ↔
      ∀ amount, Event.leak amount ∈ trace → ∀ name, amount name = 0 := by
  constructor
  · intro nothing amount member name
    exact List.sum_eq_zero_iff_forall_eq_nat.mp (nothing name) (amount name)
      (List.mem_map.mpr ⟨Event.leak amount, member, rfl⟩)
  · intro empty name
    refine List.sum_eq_zero_iff_forall_eq_nat.mpr ?_
    intro amount member
    obtain ⟨event, inTrace, rfl⟩ := List.mem_map.mp member
    cases event with
    | change _ => rfl
    | leak amount => exact empty amount inTrace name
    | expect _ => rfl

/-! ## Expectations -/

/-- Every expectation is met by the tokens held when it is reached. -/
def Sound : (Name → Int) → List (Event Name) → Prop
  | _, [] => True
  | tokens, event :: rest =>
      event.Holds tokens ∧
        Sound (fun name => tokens name + event.audited name) rest

theorem sound_append (tokens : Name → Int) (first second : List (Event Name)) :
    Sound tokens (first ++ second) ↔
      Sound tokens first ∧
        Sound (fun name => tokens name + audited first name) second := by
  induction first generalizing tokens with
  | nil => simp [Sound]
  | cons event rest inductionHypothesis =>
      simp only [List.cons_append, Sound, inductionHypothesis, audited_cons,
        add_assoc, and_assoc]

/-- A trace without expectations is sound. -/
theorem sound_of_no_expect (tokens : Name → Int) (trace : List (Event Name))
    (noExpect : ∀ condition, Event.expect condition ∉ trace) :
    Sound tokens trace := by
  induction trace generalizing tokens with
  | nil => trivial
  | cons event rest inductionHypothesis =>
      refine ⟨?_, inductionHypothesis _ fun condition member =>
        noExpect condition (List.mem_cons_of_mem _ member)⟩
      cases event with
      | change _ => trivial
      | leak _ => trivial
      | expect condition => exact absurd List.mem_cons_self (noExpect condition)

/-! ## Lower bounds -/

/-- At no point has the trace taken more than the bound allows. -/
def Floor (bound : Name → Int) (trace : List (Event Name)) : Prop :=
  ∀ front, front <+: trace → ∀ name, bound name ≤ audited front name

namespace Floor

variable {bound weaker : Name → Int} {first second trace : List (Event Name)}

theorem nil (nonpos : ∀ name, bound name ≤ 0) : Floor bound [] := by
  intro front isPrefix name
  rw [List.prefix_nil.mp isPrefix]
  exact nonpos name

theorem append
    (firstFloor : Floor bound first)
    (secondFloor : Floor (fun name => bound name - audited first name) second) :
    Floor bound (first ++ second) := by
  intro front isPrefix name
  rcases List.prefix_or_prefix_of_prefix isPrefix
    (List.prefix_append first second) with
    inFirst | ⟨rest, rfl⟩
  · exact firstFloor front inFirst name
  · have inSecond :=
      secondFloor rest ((List.prefix_append_right_inj first).mp isPrefix) name
    rw [audited_append]
    exact Int.le_add_of_sub_left_le inSecond

theorem cons
    {event : Event Name}
    (nonpos : ∀ name, bound name ≤ 0)
    (restFloor : Floor (fun name => bound name - event.audited name) trace) :
    Floor bound (event :: trace) := by
  intro front isPrefix name
  cases front with
  | nil => exact nonpos name
  | cons head tail =>
      obtain ⟨rfl, tailPrefix⟩ := List.cons_prefix_cons.mp isPrefix
      have inRest := restFloor tail tailPrefix name
      rw [audited_cons]
      exact Int.le_add_of_sub_left_le inRest

theorem mono (floor : Floor bound trace)
    (le : ∀ name, weaker name ≤ bound name) :
    Floor weaker trace :=
  fun front isPrefix name => Int.le_trans (le name) (floor front isPrefix name)

/-- The floor of what follows the first event. -/
theorem tail
    {event : Event Name}
    (floor : Floor bound (event :: trace)) :
    Floor (fun name => bound name - event.audited name) trace := by
  intro front isPrefix name
  have whole :=
    floor (event :: front) (List.cons_prefix_cons.mpr ⟨rfl, isPrefix⟩) name
  rw [audited_cons] at whole
  exact Int.sub_left_le_of_le_add whole

end Floor

end TokenTrace
end ClojureRt
