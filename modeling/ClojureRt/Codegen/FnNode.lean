import ClojureRt.Frontend.MemoryManagement
import ClojureRt.Runtime.Function
import Mathlib.Data.List.Sort
import Mathlib.Data.Int.Basic

/-!
# References handed over to a function object

Three places decide about the references to a captured variable.  The reference
counting pass hands them over once for a `:fn` node, looking at the union of
what its methods capture.  The code generator stores the captures of every
method into an array of its own.  The runtime releases every array.

A value is written as the variable that holds it, so references are counted for
each variable.
-/

namespace ClojureRt
namespace Codegen

open Frontend

variable {Name : Type} [DecidableEq Name]

/-! ## The code generator -/

/-- What the code generator reads of a method: `:closed-overs` are the values of
a map, in the order of that map. -/
structure FnMethodNode (Name : Type) where
  fixedArity : Nat
  isVariadic : Bool
  closedOvers : List Name

namespace FnMethodNode

/-- The order in which methods are laid out: those that are not variadic first,
then by arity. -/
def precedes (first second : FnMethodNode Name) : Bool :=
  if first.isVariadic ≠ second.isVariadic then !first.isVariadic
  else decide (first.fixedArity ≤ second.fixedArity)

/-- `captureInfo`: everything closed over but the function itself. -/
def captureInfo (selfBindingName : Option Name) (method : FnMethodNode Name) :
    List Name :=
  method.closedOvers.filter fun name => decide (selfBindingName ≠ some name)

end FnMethodNode

/-- `codegen` of an `FnNode`: the function object it creates. -/
def codegen
    (selfBindingName : Option Name)
    (once : Bool)
    (methods : List (FnMethodNode Name)) :
    Runtime.Function.ClojureFunction Name :=
  Runtime.Function.create once
    ((methods.mergeSort FnMethodNode.precedes).map
      (FnMethodNode.captureInfo selfBindingName))

/-- The methods handed to the code generator for the methods of a `:fn`.  The
keys of `:closed-overs` are the fresh variables of a method. -/
def Encodes : Methods Name (Finset Name) → List (FnMethodNode Name) → Prop
  | .nil, [] => True
  | .cons fresh _ params _ _ rest, first :: others =>
      first.fixedArity + first.isVariadic.toNat = params.length ∧
        first.closedOvers.Nodup ∧ first.closedOvers.toFinset = fresh ∧
        Encodes rest others
  | _, _ => False

/-! ## Counting references -/

/-- The variables each method captures. -/
def captureSets (self : Option Name) : Methods Name (Finset Name) → List
    (Finset Name)
  | .nil => []
  | .cons fresh _ _ _ _ rest => withoutSelf self fresh :: captureSets self rest

/-- References handed over when the node runs: one that the node owns, and those
that its `:drop-memory` adds. -/
def handedOver (memory : Memory Name) (owned : Finset Name)
    (name : Name) : Int :=
  amounts 1 owned name + memory.dropMemory name

/-- References held by the arrays of a function object. -/
def held (function : Runtime.Function.ClojureFunction Name)
    (name : Name) : Int :=
  (Runtime.Function.closedOvers function).count name

/-- References released by a function object until it is gone. -/
def released
    (function : Runtime.Function.ClojureFunction Name)
    (called : Bool)
    (name : Name) : Int :=
  (Runtime.Function.released function called).count name

/-- As many references are handed over as the object holds, and as it
releases. -/
def CaptureBalanced
    (captured : Finset Name)
    (memory : Memory Name)
    (owned : Finset Name)
    (function : Runtime.Function.ClojureFunction Name) : Prop :=
  ∀ name ∈ captured, ∀ called,
    handedOver memory owned name = held function name ∧
      held function name = released function called name

/-- The number of methods that capture a variable. -/
def capturing (sets : List (Finset Name)) (name : Name) : Nat :=
  sets.countP (name ∈ ·)

theorem capturing_cons (first : Finset Name) (rest : List (Finset Name))
    (name : Name) :
    capturing (first :: rest) name = capturing rest name + if name ∈
      first then 1 else 0 := by
  simp [capturing, List.countP_cons]

theorem toFinset_captureInfo (self : Option Name) (method : FnMethodNode Name) :
    (method.captureInfo self).toFinset =
    withoutSelf self method.closedOvers.toFinset := by
  ext name
  cases self with
  | none => simp [FnMethodNode.captureInfo, withoutSelf]
  | some own => simp [FnMethodNode.captureInfo, withoutSelf, ne_comm]

/-- The captures of methods before they are sorted. -/
theorem count_captureInfo (self : Option Name)
    (methods : Methods Name (Finset Name))
    (nodes : List (FnMethodNode Name)) (encodes : Encodes methods nodes)
    (name : Name) :
    (nodes.map (FnMethodNode.captureInfo self)).flatten.count name =
      capturing (captureSets self methods) name := by
  match methods, nodes with
  | .nil, [] => rfl
  | .nil, _ :: _ => exact encodes.elim
  | .cons _ _ _ _ _ _, [] => exact encodes.elim
  | .cons fresh _ params _ _ rest, first :: others =>
      obtain ⟨-, nodup, keys, others⟩ := encodes
      have inRest := count_captureInfo self rest _ others name
      have inFirst : (first.captureInfo self).count name =
          if name ∈ withoutSelf self fresh then 1 else 0 := by
        rw [← keys, ← toFinset_captureInfo, FnMethodNode.captureInfo,
          List.Nodup.count (nodup.filter _)]
        simp only [List.mem_toFinset]
      rw [List.map_cons, List.flatten_cons, List.count_append, inRest, inFirst,
        captureSets, capturing_cons, Nat.add_comm]

theorem length_captureInfo (self : Option Name)
    (methods : Methods Name (Finset Name))
    (nodes : List (FnMethodNode Name)) (encodes : Encodes methods nodes) :
    nodes.map (fun node => (node.captureInfo self).length) =
      (captureSets self methods).map Finset.card := by
  match methods, nodes with
  | .nil, [] => rfl
  | .nil, _ :: _ => exact encodes.elim
  | .cons _ _ _ _ _ _, [] => exact encodes.elim
  | .cons fresh _ params _ _ rest, first :: others =>
      obtain ⟨-, nodup, keys, others⟩ := encodes
      have inFirst :
          (first.captureInfo self).length = (withoutSelf self fresh).card := by
        rw [← keys, ← toFinset_captureInfo]
        exact (List.toFinset_card_of_nodup (nodup.filter _)).symm
      rw [List.map_cons, captureSets, List.map_cons, inFirst,
        length_captureInfo self rest _ others]

/-- Every method that captures a variable holds a reference. -/
theorem held_codegen (self : Option Name) (once : Bool)
    (methods : Methods Name (Finset Name))
    (nodes : List (FnMethodNode Name)) (encodes : Encodes methods nodes)
    (name : Name) :
    held (codegen self once nodes) name = capturing (captureSets self methods)
      name := by
  have sorted : ((nodes.mergeSort FnMethodNode.precedes).map
      (FnMethodNode.captureInfo self)).flatten.Perm
        (nodes.map (FnMethodNode.captureInfo self)).flatten :=
    ((List.mergeSort_perm nodes _).map _).flatten
  rw [held, codegen, Runtime.Function.closedOvers_create, sorted.count_eq,
    count_captureInfo self methods nodes encodes]

/-- An object releases what it holds exactly when every count fits its field. -/
theorem released_codegen_iff (self : Option Name) (once : Bool)
    (methods : Methods Name (Finset Name)) (nodes : List (FnMethodNode Name))
    (encodes : Encodes methods nodes) (called : Bool) :
    (∀ name, held (codegen self once nodes) name =
        released (codegen self once nodes) called name) ↔
      ∀ captures ∈ captureSets self methods, captures.card < 256 := by
  have lengths : (∀ values ∈ (nodes.mergeSort FnMethodNode.precedes).map
        (FnMethodNode.captureInfo self), values.length < 256) ↔
      ∀ captures ∈ captureSets self methods, captures.card < 256 := by
    have mapped := congrArg (fun lengths => ∀ length ∈ lengths, length < 256)
      (length_captureInfo self methods nodes encodes)
    simpa only [List.forall_mem_map, List.mem_mergeSort] using Iff.of_eq mapped
  rw [← lengths, ← Runtime.Function.count_released_eq_iff once called]
  simp only [held, released, codegen, Runtime.Function.closedOvers_create,
    Int.ofNat_inj, eq_comm]

/-- An object does not release more than it holds. -/
theorem released_codegen_le (self : Option Name) (once called : Bool)
    (nodes : List (FnMethodNode Name)) (name : Name) :
    released (codegen self once nodes) called name ≤
      held (codegen self once nodes) name := by
  rw [held, released, codegen, Runtime.Function.closedOvers_create,
    Runtime.Function.released_create]
  exact Int.ofNat_le.mpr
    ((Runtime.Function.releaseClosedOvers_sublist _).count_le name)

/-- What a method captures is captured by the function. -/
theorem capturing_pos_iff (self : Option Name)
    (methods : Methods Name (Finset Name))
    (name : Name) :
    0 < capturing (captureSets self methods) name ↔
      name ∈ withoutSelf self methods.fresh := by
  match methods with
  | .nil => simp [captureSets, capturing, Methods.fresh, withoutSelf]
  | .cons fresh _ _ _ _ rest =>
      have inRest := capturing_pos_iff self rest name
      rw [captureSets, capturing_cons]
      simp only [withoutSelf, Methods.fresh, Finset.mem_sdiff,
        Finset.mem_union] at inRest ⊢
      split <;> grind

/-- No variable is captured by two methods. -/
theorem pairwise_disjoint_iff (sets : List (Finset Name)) :
    sets.Pairwise Disjoint ↔ ∀ name, capturing sets name ≤ 1 := by
  induction sets with
  | nil => simp [capturing]
  | cons first rest inductionHypothesis =>
      have inSome : ∀ name, 0 < capturing rest name ↔ ∃ set ∈ rest,
          name ∈ set := by
        intro name
        simp [capturing, List.countP_pos_iff]
      rw [List.pairwise_cons, inductionHypothesis]
      constructor
      · rintro ⟨apart, restApart⟩ name
        rw [capturing_cons]
        have atMostOne := restApart name
        split
        · rename_i inFirst
          have notInRest : ¬ 0 < capturing rest name := by
            rw [inSome]
            rintro ⟨set, member, inSet⟩
            exact Finset.disjoint_left.mp (apart set member) inFirst inSet
          omega
        · omega
      · intro atMostOne
        refine ⟨?_, fun name => ?_⟩
        · intro set member
          refine Finset.disjoint_left.mpr fun name inFirst inSet => ?_
          have inRest := (inSome name).mpr ⟨set, member, inSet⟩
          have bound := atMostOne name
          rw [capturing_cons, if_pos inFirst] at bound
          omega
        · have bound := atMostOne name
          rw [capturing_cons] at bound
          omega

/-- The pass hands over one reference to every captured variable. -/
theorem handedOver_fn
    {fresh : Finset Name}
    {self : Option Name}
    {methods : Methods Name (Finset Name)}
    {borrowed owned unwindOwned : Finset Name}
    {annotated : Node Name (Memory Name)}
    (pass : memoryManagementPass (.fn fresh self methods) borrowed owned
      unwindOwned =
      .ok annotated)
    {name : Name}
    (captured : name ∈ withoutSelf self methods.fresh) :
    handedOver annotated.ann owned name = 1 := by
  simp only [memoryManagementPass] at pass
  cases checked : dispatch fresh borrowed owned unwindOwned with
  | error violation =>
      rw [checked] at pass
      cases pass
  | ok _ =>
      cases passed : fnMethodMemoryManagementPass ∅ methods with
      | error violation =>
          rw [checked, passed] at pass
          cases pass
      | ok updated =>
          rw [checked, passed] at pass
          cases pass
          simp only [withoutSelf, Finset.mem_sdiff] at captured
          simp only [handedOver, Node.ann, Memory.setUnwind, Memory.dupVars,
            Memory.addDrop, Memory.start, amounts, withoutSelf,
            Finset.mem_sdiff]
          grind

/-- References to captured variables balance exactly when no two methods capture
the same variable and no method captures more than its count can tell. -/
theorem captureBalanced_iff
    (fresh : Finset Name)
    (self : Option Name)
    (once : Bool)
    (methods : Methods Name (Finset Name))
    (nodes : List (FnMethodNode Name))
    (borrowed owned unwindOwned : Finset Name)
    (annotated : Node Name (Memory Name))
    (pass : memoryManagementPass (.fn fresh self methods) borrowed owned
      unwindOwned =
      .ok annotated)
    (encodes : Encodes methods nodes) :
    CaptureBalanced (withoutSelf self methods.fresh) annotated.ann owned
        (codegen self once nodes) ↔
      (captureSets self methods).Pairwise Disjoint ∧
        ∀ captures ∈ captureSets self methods, captures.card < 256 := by
  have heldCount := held_codegen self once methods nodes encodes
  have capturedIff := capturing_pos_iff self methods
  rw [pairwise_disjoint_iff,
    ← released_codegen_iff self once methods nodes encodes true]
  constructor
  · intro balanced
    refine ⟨fun name => ?_, fun name => ?_⟩
    · by_cases captured : name ∈ withoutSelf self methods.fresh
      · have handed := (balanced name captured true).1
        rw [handedOver_fn pass captured, heldCount] at handed
        omega
      · have none := mt (capturedIff name).mp captured
        omega
    · by_cases captured : name ∈ withoutSelf self methods.fresh
      · exact (balanced name captured true).2
      · have none := mt (capturedIff name).mp captured
        have heldNone := heldCount name
        have bound := released_codegen_le self once true nodes name
        have nonneg : 0 ≤ released (codegen self once nodes) true name :=
          Int.natCast_nonneg _
        omega
  · rintro ⟨atMostOne, releases⟩ name captured called
    refine ⟨?_, ?_⟩
    · have once := (capturedIff name).mpr captured
      have bound := atMostOne name
      rw [handedOver_fn pass captured, heldCount]
      omega
    · rw [releases name, released, released, codegen,
        Runtime.Function.released_create, Runtime.Function.released_create]

/-- The methods of `(fn ([] x) ([y] z))`. -/
theorem captureBalanced_iff_disjoint :
    ∃ annotated,
      memoryManagementPass
          (.fn {0, 2} none (.cons {0} none [] 8 (.localVar {0} 0)
            (.cons {2} none [1] 9 (.localVar {2} 2) .nil))) ∅ {0, 2} {0} =
              .ok annotated ∧
        CaptureBalanced {0, 2} annotated.ann {0, 2}
          (codegen none false [⟨0, false, [0]⟩, ⟨1, false, [2]⟩]) := by
  refine ⟨_, rfl, ?_⟩
  exact (captureBalanced_iff {0, 2} none false
    (.cons {0} none [] 8 (.localVar {0} 0)
      (.cons {2} none [1] 9 (.localVar {2} 2) .nil))
    [⟨0, false, [0]⟩, ⟨1, false, [2]⟩] ∅ {0, 2} {0} _ rfl
    (by simp [Encodes])).mpr
    (by simp [captureSets, withoutSelf])

/-- The function `(fn ([] x) ([y] x))`, where `x` is borrowed: one reference is
added, two are held. -/
theorem two_arities_not_captureBalanced :
    ∃ annotated,
      memoryManagementPass
          (.fn {0} none (.cons {0} none [] 8 (.localVar {0} 0)
            (.cons {0} none [1] 9 (.localVar {0} 0) .nil))) {0} ∅ ∅ =
              .ok annotated ∧
        Encodes (.cons {0} none [] 8 (.localVar {0} 0)
          (.cons {0} none [1] 9 (.localVar {0} 0) .nil))
          [⟨0, false, [0]⟩, ⟨1, false, [0]⟩] ∧
        handedOver annotated.ann ∅ 0 = 1 ∧
        held (codegen none false [⟨0, false, [0]⟩, ⟨1, false, [0]⟩]) 0 = 2 ∧
        ¬ CaptureBalanced {0} annotated.ann ∅
          (codegen none false [⟨0, false, [0]⟩, ⟨1, false, [0]⟩]) := by
  have encodes : Encodes (.cons {0} none [] 8 (.localVar {0} 0)
      (.cons {0} none [1] 9 (.localVar {0} 0) .nil))
      [⟨0, false, [0]⟩, ⟨1, false, [0]⟩] := by
    simp [Encodes]
  have heldTwice := held_codegen none false _ _ encodes 0
  refine ⟨_, rfl, encodes, rfl, heldTwice, ?_⟩
  intro balanced
  have equal := (balanced 0 (by simp) false).1
  rw [heldTwice] at equal
  exact absurd equal (by decide)

end Codegen
end ClojureRt
