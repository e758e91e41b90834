import ClojureRt.Runtime.NamespaceCalls.Rules

/-!
# The steps of a call

A step turns the references that a call holds into those that it holds
afterwards, or into that of its result.  It does so unless it meets a map
without room for its symbol, or rejects a new mapping.
-/

namespace ClojureRt
namespace Runtime
namespace NamespaceCalls

open RefCount RefCount.Program
open ClojureRt.Runtime.PersistentArrayMap
  (Address RTValue ArrayMap Object MapHeap Code addresses retainValue
    releaseValue Framed Full valueOf)

/-! ## What is held between steps -/

/-- The references that a call takes. -/
def Call.consumed : Call → Multiset Address
  | .intern self sym => {self} + {sym}
  | .reference self sym val => {self} + {sym} + valueRefs val
  | .unmap self sym => {self} + {sym}
  | .addAlias self sym ns => {self} + optionRefs sym + optionRefs ns
  | .removeAlias self sym => {self} + {sym}

/-- The namespace of a call. -/
def Call.ns : Call → Address
  | .intern self _ => self
  | .reference self _ _ => self
  | .unmap self _ => self
  | .addAlias self _ _ => self
  | .removeAlias self _ => self

/-- The symbol of a call, or NULL. -/
def Call.sym? : Call → Option Address
  | .intern _ sym => some sym
  | .reference _ sym _ => some sym
  | .unmap _ sym => some sym
  | .addAlias _ sym _ => sym
  | .removeAlias _ sym => some sym

namespace Activity

/-- The references that a call holds. -/
def held : Activity → Multiset Address
  | called call => call.consumed
  | internLoad self sym v => {self} + {sym} + optionRefs v
  | internExchange self sym v _ newMap => {newMap} + ({self} + {sym} + {v})
  | replaceReload self sym v o => {self} + {sym} + {v} + valueRefs o
  | replaceExchange self sym v o _ newMap =>
      {newMap} + ({self} + {sym} + {v} + valueRefs o)
  | referenceLoad self sym val => {self} + {sym} + valueRefs val
  | referenceExchange self sym val _ newMap =>
      {newMap} + ({self} + {sym} + valueRefs val)
  | addAliasLoad self sym ns => {self} + {sym} + {ns}
  | addAliasExchange self sym ns _ newMap => {newMap} + ({self} + {sym} + {ns})
  | removeLoad _ self sym => {self} + {sym}
  | removeExchange _ self sym _ newMap => {newMap} + ({self} + {sym})

/-- The namespace that the call works on. -/
def ns : Activity → Address
  | called call => call.ns
  | internLoad self _ _ => self
  | internExchange self _ _ _ _ => self
  | replaceReload self _ _ _ => self
  | replaceExchange self _ _ _ _ _ => self
  | referenceLoad self _ _ => self
  | referenceExchange self _ _ _ _ => self
  | addAliasLoad self _ _ => self
  | addAliasExchange self _ _ _ _ => self
  | removeLoad _ self _ => self
  | removeExchange _ self _ _ _ => self

/-- The map that is to be put into a field. -/
def newMap? : Activity → Option Address
  | internExchange _ _ _ _ newMap => some newMap
  | replaceExchange _ _ _ _ _ newMap => some newMap
  | referenceExchange _ _ _ _ newMap => some newMap
  | addAliasExchange _ _ _ _ newMap => some newMap
  | removeExchange _ _ _ _ newMap => some newMap
  | _ => none

/-- The symbol that is still to be looked at. -/
def unchecked? : Activity → Option Address
  | called call => call.sym?
  | _ => none

/-- The field, the namespace and the symbol if the next step may enlarge a
map. -/
def growing : Activity → Option (Field × Address × Address)
  | internLoad self sym _ => some (.mappings, self, sym)
  | replaceReload self sym _ _ => some (.mappings, self, sym)
  | referenceLoad self sym _ => some (.mappings, self, sym)
  | addAliasLoad self sym _ => some (.aliases, self, sym)
  | _ => none

/-- Only `Namespace_intern` goes on after it has put a map into a field. -/
def Interns : Activity → Prop
  | internLoad _ _ _ => True
  | internExchange _ _ _ _ _ => True
  | replaceReload _ _ _ _ => True
  | replaceExchange _ _ _ _ _ _ => True
  | _ => False

/-- The arguments have the types that the functions declare. -/
structure Typed (heap : MapHeap) (activity : Activity) : Prop where
  ns : Is IsNamespace heap activity.ns
  newMap : ∀ newMap ∈ activity.newMap?, Is IsMap heap newMap
  sym : ∀ sym ∈ activity.unchecked?, Is IsSymbol heap sym

end Activity

/-- The references behind a step. -/
def Progress.held : Progress → Multiset Address
  | .goto activity => activity.held
  | .returns value => valueRefs value
  | .returnsVoid => 0
  | .throws _ => 0

/-- A call that gets here has put no map into a field. -/
def Progress.Quiet : Progress → Prop
  | .goto activity => ¬ activity.Interns
  | .returns _ => False
  | .returnsVoid => False
  | .throws _ => True

/-! ## Where a step goes wrong -/

section Conditions

variable (equals : MapHeap → RTValue → RTValue → Bool) (heap : MapHeap)

/-- The map is full and lacks the symbol. -/
def Crowded (activity : Activity) : Prop :=
  ∃ field self sym map found, activity.growing = some (field, self, sym) ∧
    Reads heap field self map found ∧ Full equals heap (.pointer sym) found

/-- The symbol is mapped to a Var that the namespace has interned under it, and
the new mapping is another one. -/
def Rejects : Activity → Prop
  | .referenceLoad self sym val =>
      ∃ map found, Reads heap .mappings self map found ∧
        equals heap
          (valueOf (AssocList.get (equals heap) (.pointer sym) found.entries))
          val =
          false ∧
        isInterned equals heap self sym
          (valueOf (AssocList.get (equals heap) (.pointer sym) found.entries)) =
          true
  | _ => False

/-- Neither of the two. -/
def Accounts (activity : Activity) : Prop :=
  ¬ Crowded equals heap activity ∧ ¬ Rejects equals heap activity

end Conditions

/-! ## What a step does -/

/-- The references that the call held are those behind the step. -/
structure Advances
    (heap : MapHeap)
    (activity : Activity)
    (progress : Progress)
    (after : MapHeap) : Prop where
  exists_changed : ∃ changed,
    Holding heap activity.held changed after progress.held ∧
    (progress.Quiet → changed = fun _ => False)
  interns : activity.Interns → ¬ progress.Quiet
  typed : ∀ next, progress = .goto next → next.Typed after

section Steps

variable
  {equals : MapHeap → RTValue → RTValue → Bool}
  {base heap : MapHeap}
  {consumed held : Multiset Address}
  {self sym : Address}

theorem advances_of_unchanged
    {activity : Activity}
    {progress : Progress}
    {after : MapHeap}
    (holding : Holding heap activity.held (fun _ => False) after progress.held)
    (interns : activity.Interns → ¬ progress.Quiet)
    (typed : ∀ next, progress = .goto next → next.Typed after) :
    Advances heap activity progress after :=
  ⟨⟨_, holding, fun _ => rfl⟩, interns, typed⟩

/-- What is found in a map is there. -/
theorem present_of_reads
    (nonneg : ∀ address, 0 ≤ base.excess address)
    {field : Field}
    {map : Address}
    {found : ArrayMap}
    (reads : Reads base field self map found)
    {o : RTValue}
    (isValue :
      o = valueOf (AssocList.get (equals base) (.pointer sym) found.entries)) :
    ∀ address ∈ addresses o, ∃ object, base.object? address = some object := by
  intro address isIn
  rw [isValue, PersistentArrayMap.addresses_valueOf] at isIn
  cases isFound : AssocList.get (equals base) (.pointer sym) found.entries with
  | none =>
      rw [isFound] at isIn
      cases isIn
  | some value =>
      obtain ⟨entry, isEntry, _, isEntryValue⟩ :=
        AssocList.exists_mem_of_get isFound
      rw [isFound, Option.getD_some, ← isEntryValue] at isIn
      exact Heap.object_of_reference nonneg reads.isMap
        (List.mem_append_left _
          (PersistentArrayMap.value_mem_entryAddresses isEntry isIn))

theorem runs_ownVar
    {v : Option Address}
    (holding : Holding base consumed (fun _ => False) heap
      (optionRefs v + held))
    (selfHeld : self ∈ held)
    (symHeld : sym ∈ held)
    {post : Address → MapHeap → Prop}
    (holds : ∀ own after,
      Holding base consumed (fun _ => False) after ({own} + held) →
      post own after) :
    Runs (ownVar self sym v) heap post := by
  cases v with
  | some address => exact Runs.pure (holds address heap holding)
  | none =>
      have nothing := holding.congr (zero_add held)
      apply Runs.bind
      apply nothing.runs_retain (nothing.covers.present selfHeld)
      intro first _ firstHolding
      apply Runs.bind
      apply firstHolding.runs_retain
        (firstHolding.covers.present (by simp [symHeld]))
      intro second _ secondHolding
      apply Runs.bind
      have isSym : {sym} + ({self} + held) = ([sym] : List Address) +
          ({self} + held) := by
        rw [coe_cons, Multiset.coe_nil, add_zero]
      apply (secondHolding.congr isSym).runs_allocate (by simp)
      intro third _ thirdHolding
      have ordered : {second.next} + ({self} + held) = {self} +
          ({second.next} + held) := by
        abel
      apply Runs.bind
      apply (thirdHolding.congr ordered).runs_release
      intro after afterHolding
      exact Runs.pure (holds second.next after afterHolding)

/-- A namespace, a symbol and a value are retained for a helper that consumes
them. -/
theorem runs_retainArguments
    {changed : Address → Prop}
    {value : RTValue}
    (holding : Holding base consumed changed heap held)
    (selfHeld : self ∈ held)
    (symHeld : sym ∈ held)
    (valueHeld : ∀ address ∈ addresses value, address ∈ held)
    {β : Type}
    {next : Code β}
    {post : β → MapHeap → Prop}
    (holds : ∀ after,
      Holding base consumed changed after
        ({self} + {sym} + valueRefs value + held) →
      Runs next after post) :
    Runs (do
      retain self
      retain sym
      retainValue value
      next) heap post := by
  apply Runs.bind
  apply holding.runs_retain (holding.covers.present selfHeld)
  intro first _ firstHolding
  apply Runs.bind
  apply firstHolding.runs_retain
    (firstHolding.covers.present (by simp [symHeld]))
  intro second _ secondHolding
  apply Runs.bind
  apply secondHolding.runs_retainValue
  · intro address isIn
    exact secondHolding.covers.present (by simp [valueHeld address isIn])
  intro after _ afterHolding
  apply holds after (afterHolding.congr _)
  abel

/-- What holds when a step begins. -/
structure Begins
    (equals : MapHeap → RTValue → RTValue → Bool)
    (heap : MapHeap)
    (activity : Activity) : Prop where
  framed : Framed equals
  covers : Covers heap activity.held
  heapTyped : Typed heap
  typed : activity.Typed heap

namespace Begins

variable {activity : Activity}

theorem holding (begins : Begins equals heap activity) :
    Holding heap activity.held (fun _ => False) heap activity.held :=
  Holding.start begins.covers begins.heapTyped

theorem nonneg (begins : Begins equals heap activity) (address : Address) :
    0 ≤ heap.excess address :=
  begins.covers.nonneg address

theorem isNamespace
    (begins : Begins equals heap activity)
    {changed : Address → Prop}
    {after : MapHeap}
    (holding : Holding heap activity.held changed after held) :
    Is IsNamespace after activity.ns :=
  holding.isNamespace begins.typed.ns

end Begins

theorem Activity.typed_of_ns
    {activity : Activity}
    (isNamespace : Is IsNamespace heap activity.ns)
    (noMap : activity.newMap? = none)
    (noSymbol : activity.unchecked? = none) : activity.Typed heap where
  ns := isNamespace
  newMap := by simp [noMap]
  sym := by simp [noSymbol]

theorem Activity.typed_of_map
    {activity : Activity}
    {newMap : Address}
    (isNamespace : Is IsNamespace heap activity.ns)
    (isNew : activity.newMap? = some newMap)
    (isMap : Is IsMap heap newMap)
    (noSymbol : activity.unchecked? = none) : activity.Typed heap where
  ns := isNamespace
  newMap := by
    intro other isOther
    rw [isNew, Option.mem_some_iff] at isOther
    rwa [← isOther]
  sym := by simp [noSymbol]

/-- What a call holds before an exchange. -/
structure Enlarges
    (activity : Activity)
    (held : Multiset Address)
    (next : Address → Activity) : Prop where
  held : ∀ newMap, (next newMap).held = {newMap} + held
  interns : ∀ newMap, activity.Interns → (next newMap).Interns
  ns : ∀ newMap, (next newMap).ns = activity.ns
  newMap : ∀ newMap, (next newMap).newMap? = some newMap
  checked : ∀ newMap, (next newMap).unchecked? = none

/-- A step that ends in a new map for an exchange. -/
theorem runs_growing
    {activity : Activity}
    {field : Field}
    (begins : Begins equals base activity)
    (isGrowing : activity.growing = some (field, self, sym))
    (notCrowded : ¬ Crowded equals base activity)
    (holding : Holding base activity.held (fun _ => False) heap held)
    {map : Address}
    {found : ArrayMap}
    (reads : Reads base field self map found)
    (selfHeld : self ∈ held)
    (symHeld : sym ∈ held)
    (symBase : ∃ object, base.object? sym = some object)
    {value : RTValue}
    (valueHeld : ∀ address ∈ addresses value, address ∈ held)
    {next : Address → Activity}
    (enlarges : Enlarges activity held next) :
    Runs (extend equals map sym value next) heap (Advances base activity) := by
  have notFull : ¬ Full equals heap (.pointer sym) found := by
    rw [holding.full_kept begins.framed begins.nonneg reads selfHeld symHeld
      symBase]
    intro isFull
    exact notCrowded ⟨field, self, sym, map, found, isGrowing, reads, isFull⟩
  apply holding.runs_extend begins.framed.countBlind
    (holding.reads_kept selfHeld reads) symHeld valueHeld notFull
  intro newMap after afterHolding isMap
  have isHeld : {newMap} + held = (Progress.goto (next newMap)).held :=
    (enlarges.held newMap).symm
  apply advances_of_unchanged (afterHolding.congr isHeld)
    fun interns quiet => quiet (enlarges.interns newMap interns)
  rintro _ ⟨⟩
  refine Activity.typed_of_map ?_ (enlarges.newMap newMap) isMap
    (enlarges.checked newMap)
  rw [enlarges.ns]
  exact begins.isNamespace afterHolding

/-- `Namespace_intern` after it has loaded the mappings. -/
theorem runs_internLoad
    {v : Option Address}
    (begins : Begins equals base (.internLoad self sym v))
    (notCrowded : ¬ Crowded equals base (.internLoad self sym v)) :
    Runs (internLoad equals self sym v) base
      (Advances base (.internLoad self sym v)) := by
  have selfHeld : self ∈ (Activity.internLoad self sym v).held := by
    simp [Activity.held]
  have symHeld : sym ∈ (Activity.internLoad self sym v).held := by
    simp [Activity.held]
  have symBase := begins.covers.present symHeld
  obtain ⟨map, found, reads⟩ :=
    begins.holding.exists_reads selfHeld begins.typed.ns .mappings
  unfold internLoad
  apply Runs.bind
  apply begins.holding.runs_lookup begins.framed.countBlind reads symHeld
  intro o first isValue firstHolding
  have ordered : valueRefs o + (Activity.internLoad self sym v).held =
      optionRefs v + ({self} + {sym} + valueRefs o) := by
    rw [Activity.held]
    abel
  replace firstHolding := firstHolding.congr ordered
  dsimp only
  by_cases isNil : o = .boxNil
  · subst isNil
    rw [if_pos rfl]
    apply Runs.bind
    apply runs_ownVar firstHolding (by simp) (by simp)
    intro own second secondHolding
    refine runs_growing begins rfl notCrowded secondHolding reads (by simp)
      (by simp) symBase
      (by simp [addresses]) ⟨fun newMap => ?_, fun _ => id, fun _ => rfl,
        fun _ => rfl, fun _ => rfl⟩
    have noRefs : valueRefs .boxNil = 0 := rfl
    rw [Activity.held, noRefs]
    abel
  rw [if_neg isNil]
  have valueHeld (address : Address) (isIn : address ∈ addresses o) :
      address ∈ valueRefs o := by
    rwa [valueRefs, Multiset.mem_coe]
  apply runs_retainArguments firstHolding (by simp) (by simp)
    fun address isIn => by simp [valueHeld address isIn]
  intro second secondHolding
  apply Runs.bind
  apply secondHolding.runs_isInternedMapping
  intro third thirdHolding
  split
  · have ordered : optionRefs v + ({self} + {sym} + valueRefs o) =
        {self} + ({sym} + (optionRefs v + valueRefs o)) := by
      abel
    apply Runs.bind
    apply (thirdHolding.congr ordered).runs_release
    intro fourth fourthHolding
    apply Runs.bind
    apply fourthHolding.runs_release
    intro fifth fifthHolding
    apply Runs.bind
    apply fifthHolding.runs_releaseVar
    intro after afterHolding
    exact Runs.pure (advances_of_unchanged afterHolding (fun _ => id) (by simp))
  · apply Runs.bind
    apply runs_ownVar thirdHolding (by simp) (by simp)
    intro own fourth fourthHolding
    apply runs_retainArguments fourthHolding (by simp) (by simp)
      fun address isIn => by simp [valueHeld address isIn]
    intro fifth fifthHolding
    apply Runs.bind
    apply fifthHolding.runs_retain (fifthHolding.covers.present (by simp))
    intro sixth _ sixthHolding
    have forCheck : {own} + ({self} + {sym} + valueRefs o +
        ({own} + ({self} + {sym} + valueRefs o))) =
        {self} + {sym} + valueRefs o + valueRefs (.pointer own) +
          ({own} + ({self} + {sym} + valueRefs o)) := by
      have ownRef : valueRefs (.pointer own) = {own} := rfl
      rw [ownRef]
      abel
    apply Runs.bind
    apply (sixthHolding.congr forCheck).runs_checkReplacement begins.framed
      begins.nonneg (present_of_reads begins.nonneg reads isValue) symBase
    intro seventh seventhHolding
    split
    · refine runs_growing begins rfl notCrowded seventhHolding reads (by simp)
        (by simp) symBase (by simp [addresses]) ⟨fun newMap => ?_, fun _ => id,
          fun _ => rfl, fun _ => rfl, fun _ => rfl⟩
      rw [Activity.held]
      abel
    · have ordered : {own} + ({self} + {sym} + valueRefs o) =
          {self} + ({sym} + ({own} + valueRefs o)) := by
        abel
      apply Runs.bind
      apply (seventhHolding.congr ordered).runs_release
      intro eighth eighthHolding
      apply Runs.bind
      apply eighthHolding.runs_release
      intro ninth ninthHolding
      apply Runs.bind
      apply ninthHolding.runs_release
      intro after afterHolding
      exact Runs.pure
        (advances_of_unchanged afterHolding (fun _ => id) (by simp))

/-- `Namespace_reference` after it has loaded the mappings. -/
theorem runs_referenceLoad
    {val : RTValue}
    (begins : Begins equals base (.referenceLoad self sym val))
    (accounts : Accounts equals base (.referenceLoad self sym val)) :
    Runs (referenceLoad equals self sym val) base
      (Advances base (.referenceLoad self sym val)) := by
  obtain ⟨notCrowded, notRejected⟩ := accounts
  have selfHeld : self ∈ (Activity.referenceLoad self sym val).held := by
    simp [Activity.held]
  have symHeld : sym ∈ (Activity.referenceLoad self sym val).held := by
    simp [Activity.held]
  have symBase := begins.covers.present symHeld
  have valHeld (address : Address) (isIn : address ∈ addresses val) :
      address ∈ valueRefs val := by
    rwa [valueRefs, Multiset.mem_coe]
  have valBase (address : Address) (isIn : address ∈ addresses val) :
      ∃ object, base.object? address = some object :=
    begins.covers.present (by simp [Activity.held, valHeld address isIn])
  obtain ⟨map, found, reads⟩ :=
    begins.holding.exists_reads selfHeld begins.typed.ns .mappings
  unfold referenceLoad
  apply Runs.bind
  apply begins.holding.runs_lookup begins.framed.countBlind reads symHeld
  intro o first isValue firstHolding
  rw [Activity.held] at firstHolding
  have oBase := present_of_reads begins.nonneg reads isValue
  have oHeld (address : Address) (isIn : address ∈ addresses o) :
      address ∈ valueRefs o := by
    rwa [valueRefs, Multiset.mem_coe]
  dsimp only
  by_cases isNil : o = .boxNil
  · rw [if_pos isNil]
    have noRefs : valueRefs o = 0 := by
      rw [isNil]
      rfl
    rw [noRefs, zero_add] at firstHolding
    exact runs_growing begins rfl notCrowded firstHolding reads (by simp)
      (by simp) symBase (fun address isIn => by simp [valHeld address isIn])
      ⟨fun _ => rfl, fun _ => id, fun _ => rfl, fun _ => rfl, fun _ => rfl⟩
  rw [if_neg isNil]
  have sameTest : equals first o val = equals base o val := by
    apply firstHolding.equals_kept begins.framed begins.nonneg
    intro address isIn
    rcases List.mem_append.mp isIn with inO | inVal
    · exact ⟨oBase address inO,
        firstHolding.covers.present (by simp [oHeld address inO])⟩
    · exact ⟨valBase address inVal,
        firstHolding.covers.present (by simp [valHeld address inVal])⟩
  apply Runs.bind
  apply Holding.runs_equalValues
  rw [sameTest]
  split
  · have ordered : valueRefs o + ({self} + {sym} + valueRefs val) =
        {self} + ({sym} + (valueRefs val + valueRefs o)) := by
      abel
    apply Runs.bind
    apply (firstHolding.congr ordered).runs_release
    intro second secondHolding
    apply Runs.bind
    apply secondHolding.runs_release
    intro third thirdHolding
    apply Runs.bind
    apply thirdHolding.runs_releaseValue
    intro after afterHolding
    exact Runs.pure (advances_of_unchanged afterHolding (fun _ => id) (by simp))
  · next different =>
      apply runs_retainArguments firstHolding (by simp) (by simp)
        fun address isIn => by simp [oHeld address isIn]
      intro second secondHolding
      apply Runs.bind
      apply secondHolding.runs_retainValue
      · intro address isIn
        exact secondHolding.covers.present (by simp [valHeld address isIn])
      intro third _ thirdHolding
      have forCheck : valueRefs val + ({self} + {sym} + valueRefs o +
          (valueRefs o + ({self} + {sym} + valueRefs val))) =
          {self} + {sym} + valueRefs o + valueRefs val +
            (valueRefs o + ({self} + {sym} + valueRefs val)) := by
        abel
      apply Runs.bind
      apply (thirdHolding.congr forCheck).runs_checkReplacement begins.framed
        begins.nonneg oBase symBase
      intro fourth fourthHolding
      have notInterned : isInterned equals base self sym o = false := by
        rw [← Bool.not_eq_true]
        intro interned
        rw [isValue] at different interned
        exact notRejected
          ⟨map, found, reads, Bool.eq_false_of_not_eq_true different, interned⟩
      rw [notInterned, Bool.not_false, if_pos rfl]
      apply Runs.bind
      apply fourthHolding.runs_releaseValue
      intro fifth fifthHolding
      exact runs_growing begins rfl notCrowded fifthHolding reads (by simp)
        (by simp) symBase (fun address isIn => by simp [valHeld address isIn])
        ⟨fun _ => rfl, fun _ => id, fun _ => rfl, fun _ => rfl, fun _ => rfl⟩

/-- `Namespace_addAlias` after it has loaded the aliases. -/
theorem runs_addAliasLoad
    {ns : Address}
    (begins : Begins equals base (.addAliasLoad self sym ns))
    (notCrowded : ¬ Crowded equals base (.addAliasLoad self sym ns)) :
    Runs (addAliasLoad equals self sym ns) base
      (Advances base (.addAliasLoad self sym ns)) := by
  have selfHeld : self ∈ (Activity.addAliasLoad self sym ns).held := by
    simp [Activity.held]
  have symHeld : sym ∈ (Activity.addAliasLoad self sym ns).held := by
    simp [Activity.held]
  have symBase := begins.covers.present symHeld
  obtain ⟨map, found, reads⟩ :=
    begins.holding.exists_reads selfHeld begins.typed.ns .aliases
  unfold addAliasLoad
  apply Runs.bind
  apply begins.holding.runs_lookup begins.framed.countBlind reads symHeld
  intro oldNs first isValue firstHolding
  rw [Activity.held] at firstHolding
  dsimp only
  by_cases isNil : oldNs = .boxNil
  · rw [if_pos isNil]
    have noRefs : valueRefs oldNs = 0 := by
      rw [isNil]
      rfl
    rw [noRefs, zero_add] at firstHolding
    exact runs_growing begins rfl notCrowded firstHolding reads (by simp)
      (by simp) symBase
      (by simp [addresses]) ⟨fun _ => rfl, fun _ => id, fun _ => rfl,
        fun _ => rfl, fun _ => rfl⟩
  rw [if_neg isNil]
  apply Runs.bind
  apply Holding.runs_equalValues
  have ordered : valueRefs oldNs + ({self} + {sym} + {ns}) =
      {sym} + ({ns} + ({self} + (valueRefs oldNs + 0))) := by
    abel
  apply Runs.bind
  apply (firstHolding.congr ordered).runs_release
  intro second secondHolding
  apply Runs.bind
  apply secondHolding.runs_release
  intro third thirdHolding
  apply Runs.bind
  apply thirdHolding.runs_release
  intro fourth fourthHolding
  apply Runs.bind
  apply fourthHolding.runs_releaseValue
  intro after afterHolding
  apply Runs.pure
  split
  · exact advances_of_unchanged afterHolding (fun _ => id) (by simp)
  · exact advances_of_unchanged afterHolding False.elim (by simp)

/-- `Namespace_unmap` or `Namespace_removeAlias` after it has loaded the map. -/
theorem runs_removeLoad
    {field : Field}
    (begins : Begins equals base (.removeLoad field self sym)) :
    Runs (removeLoad equals field self sym) base
      (Advances base (.removeLoad field self sym)) := by
  have selfHeld : self ∈ (Activity.removeLoad field self sym).held := by
    simp [Activity.held]
  have symHeld : sym ∈ (Activity.removeLoad field self sym).held := by
    simp [Activity.held]
  obtain ⟨map, found, reads⟩ :=
    begins.holding.exists_reads selfHeld begins.typed.ns field
  unfold removeLoad
  apply Runs.bind
  apply begins.holding.runs_lookup begins.framed.countBlind reads symHeld
  intro existing first isValue firstHolding
  rw [Activity.held] at firstHolding
  dsimp only
  by_cases isNil : existing = .boxNil
  · rw [if_pos isNil]
    have noRefs : valueRefs existing = 0 := by
      rw [isNil]
      rfl
    have ordered : valueRefs existing + ({self} + {sym}) = {self} +
        ({sym} + 0) := by
      rw [noRefs]
      abel
    apply Runs.bind
    apply (firstHolding.congr ordered).runs_release
    intro second secondHolding
    apply Runs.bind
    apply secondHolding.runs_release
    intro after afterHolding
    exact Runs.pure (advances_of_unchanged afterHolding (fun _ => id) (by simp))
  rw [if_neg isNil]
  apply Runs.bind
  apply firstHolding.runs_releaseValue
  intro second secondHolding
  apply secondHolding.runs_reduce begins.framed.countBlind
    (secondHolding.reads_kept (by simp) reads) (by simp) (by simp)
  intro newMap after afterHolding isMap
  apply Runs.pure
  apply advances_of_unchanged afterHolding False.elim
  rintro _ ⟨⟩
  exact Activity.typed_of_map (begins.isNamespace afterHolding) rfl isMap rfl

/-! ### Checks and exchanges -/

/-- What a call gives up before it throws. -/
theorem runs_refuseQualified
    {call : Call}
    {giveUp : Code Unit}
    {message : String}
    {next : Activity}
    (begins : Begins equals base (.called call))
    (isSym : call.sym? = some sym)
    (symHeld : sym ∈ call.consumed)
    (givesUp : ∀ post : Unit → MapHeap → Prop,
      (∀ after, Holding base call.consumed (fun _ => False) after 0 →
        post () after) →
      Runs giveUp base post)
    (nextHeld : next.held = call.consumed)
    (nextNs : next.ns = call.ns)
    (noMap : next.newMap? = none)
    (checked : next.unchecked? = none) :
    Runs (refuseQualified sym giveUp message next) base
      (Advances base (.called call)) := by
  obtain ⟨object, found⟩ := begins.covers.present symHeld
  obtain ⟨qualified, text, isSymbol⟩ :=
    (begins.typed.sym sym isSym).2 object found
  unfold refuseQualified isQualified
  apply Runs.bind
  apply Runs.bind
  apply Runs.load found
  rw [isSymbol]
  apply Runs.pure
  cases qualified with
  | true =>
      apply Runs.bind
      apply givesUp
      intro after holding
      exact Runs.pure (advances_of_unchanged holding False.elim (by simp))
  | false =>
      apply Runs.pure
      have isHeld : call.consumed = (Progress.goto next).held := nextHeld.symm
      apply advances_of_unchanged (begins.holding.congr isHeld) False.elim
      rintro _ ⟨⟩
      apply Activity.typed_of_ns _ noMap checked
      rw [nextNs]
      exact begins.typed.ns

theorem runs_releaseBoth
    {changed : Address → Prop}
    (holding : Holding base consumed changed heap ({self} + {sym}))
    (post : Unit → MapHeap → Prop)
    (holds : ∀ after, Holding base consumed changed after 0 → post () after) :
    Runs (do release self; release sym) heap post := by
  apply Runs.bind
  apply holding.runs_release
  intro first firstHolding
  apply (firstHolding.congr (add_zero {sym}).symm).runs_release
  exact holds

/-- What is refused is given up, and the first load comes next. -/
theorem runs_called
    {call : Call}
    (begins : Begins equals base (.called call)) :
    Runs (called call) base (Advances base (.called call)) := by
  have holding : Holding base call.consumed (fun _ => False) base
    call.consumed := begins.holding
  cases call with
  | intern self sym =>
      exact runs_refuseQualified begins rfl (by simp [Call.consumed])
        (runs_releaseBoth holding) (add_zero _) rfl rfl rfl
  | reference self sym val =>
      refine runs_refuseQualified begins rfl (by simp [Call.consumed]) ?_ rfl
        rfl rfl rfl
      intro post holds
      have ordered : Call.consumed (.reference self sym val) =
          {self} + ({sym} + (valueRefs val + 0)) := by
        rw [Call.consumed]
        abel
      apply Runs.bind
      apply (holding.congr ordered).runs_release
      intro first firstHolding
      apply Runs.bind
      apply firstHolding.runs_release
      intro second secondHolding
      exact secondHolding.runs_releaseValue holds
  | unmap self sym =>
      exact runs_refuseQualified begins rfl (by simp [Call.consumed])
        (runs_releaseBoth holding) rfl rfl rfl rfl
  | addAlias self sym ns =>
      have ordered : Call.consumed (.addAlias self sym ns) =
          optionRefs sym + (optionRefs ns + ({self} + 0)) := by
        rw [Call.consumed]
        abel
      cases sym with
      | none =>
          apply Runs.bind
          apply (holding.congr ordered).runs_releaseVar
          intro first firstHolding
          apply Runs.bind
          apply firstHolding.runs_releaseVar
          intro second secondHolding
          apply Runs.bind
          apply secondHolding.runs_release
          intro after afterHolding
          exact Runs.pure
            (advances_of_unchanged afterHolding False.elim (by simp))
      | some sym =>
          cases ns with
          | none =>
              apply Runs.bind
              apply (holding.congr ordered).runs_releaseVar
              intro first firstHolding
              apply Runs.bind
              apply firstHolding.runs_releaseVar
              intro second secondHolding
              apply Runs.bind
              apply secondHolding.runs_release
              intro after afterHolding
              exact Runs.pure
                (advances_of_unchanged afterHolding False.elim (by simp))
          | some ns =>
              refine runs_refuseQualified begins rfl
                (by simp [Call.consumed, optionRefs]) ?_ rfl
                rfl rfl rfl
              intro post holds
              apply Runs.bind
              apply (holding.congr ordered).runs_release
              intro first firstHolding
              apply Runs.bind
              apply firstHolding.runs_release
              intro second secondHolding
              exact secondHolding.runs_release holds
  | removeAlias self sym =>
      exact runs_refuseQualified begins rfl (by simp [Call.consumed])
        (runs_releaseBoth holding) rfl rfl rfl rfl

/-- The exchange of a call that begins with it. -/
theorem runs_exchange
    {activity : Activity}
    {field : Field}
    {map newMap : Address}
    (begins : Begins equals base activity)
    (isHeld : activity.held = {newMap} + held)
    (isNs : activity.ns = self)
    (isNew : activity.newMap? = some newMap)
    (selfHeld : self ∈ held)
    {post : Bool → MapHeap → Prop}
    (holds : ∀ replaced changed after,
      Holding base activity.held changed after held →
      Is IsNamespace after self →
        (replaced = false → changed = fun _ => False) →
      post replaced after) :
    Runs (exchange field self map newMap) base post := by
  subst isNs
  apply (begins.holding.congr isHeld).runs_exchange selfHeld begins.typed.ns
    (begins.typed.newMap newMap isNew)
  intro replaced changed after holding
  exact holds replaced changed after holding (begins.isNamespace holding)

/-- A call that has put a map into a field does not throw. -/
theorem advances_of_changed
    {activity : Activity}
    {progress : Progress}
    {changed : Address → Prop}
    {after : MapHeap}
    (holding : Holding base activity.held changed after progress.held)
    (notQuiet : ¬ progress.Quiet)
    (typed : ∀ next, progress = .goto next → next.Typed after) :
    Advances base activity progress after where
  exists_changed := ⟨changed, holding, fun quiet => absurd quiet notQuiet⟩
  interns := fun _ => notQuiet
  typed := typed

/-- A call goes back to its load. -/
theorem advances_goto
    {activity next : Activity}
    {changed : Address → Prop}
    {after : MapHeap}
    (holding : Holding base activity.held changed after held)
    (isHeld : held = next.held)
    (isNamespace : Is IsNamespace after next.ns)
    (noMap : next.newMap? = none)
    (checked : next.unchecked? = none)
    (unchanged : ¬ next.Interns → changed = fun _ => False)
    (interns : activity.Interns → next.Interns) :
    Advances base activity (.goto next) after where
  exists_changed := ⟨changed, holding.congr isHeld, unchanged⟩
  interns := fun activityInterns quiet => quiet (interns activityInterns)
  typed := by
    rintro _ ⟨⟩
    exact Activity.typed_of_ns isNamespace noMap checked

/-- A step of a call that accounts for what it holds. -/
theorem runs_advance
    {activity : Activity}
    (begins : Begins equals base activity)
    (accounts : Accounts equals base activity) :
    Runs (advance equals activity) base (Advances base activity) := by
  cases activity with
  | called call => exact runs_called begins
  | internLoad self sym v => exact runs_internLoad begins accounts.1
  | referenceLoad self sym val => exact runs_referenceLoad begins accounts
  | addAliasLoad self sym ns => exact runs_addAliasLoad begins accounts.1
  | removeLoad field self sym => exact runs_removeLoad begins
  | internExchange self sym v map newMap =>
      apply Runs.bind
      apply runs_exchange begins rfl rfl rfl (by simp [Activity.ns])
      intro _ changed after holding isNamespace _
      exact Runs.pure
        (advances_goto holding rfl isNamespace rfl rfl (absurd trivial) fun _ =>
        trivial)
  | replaceReload self sym v o =>
      have selfHeld : self ∈ (Activity.replaceReload self sym v o).held := by
        simp [Activity.held]
      have symHeld : sym ∈ (Activity.replaceReload self sym v o).held := by
        simp [Activity.held]
      obtain ⟨map, found, reads⟩ :=
        begins.holding.exists_reads selfHeld begins.typed.ns .mappings
      apply Runs.bind
      apply Holding.runs_loadField reads
      exact runs_growing begins rfl accounts.1 begins.holding reads
        selfHeld symHeld
        (begins.covers.present symHeld) (by simp [addresses, Activity.held])
        ⟨fun _ => rfl, fun _ => id, fun _ => rfl, fun _ => rfl, fun _ => rfl⟩
  | replaceExchange self sym v o map newMap =>
      apply Runs.bind
      apply runs_exchange begins rfl rfl rfl (by simp [Activity.ns])
      intro replaced changed after holding isNamespace unchanged
      cases replaced with
      | false =>
          exact Runs.pure
            (advances_goto holding rfl isNamespace rfl rfl (absurd trivial)
            fun _ => trivial)
      | true =>
          have ordered : {self} + {sym} + {v} + valueRefs o =
              {self} + ({sym} + (valueRefs o + {v})) := by
            abel
          apply Runs.bind
          apply (holding.congr ordered).runs_release
          intro second secondHolding
          apply Runs.bind
          apply secondHolding.runs_release
          intro third thirdHolding
          apply Runs.bind
          apply thirdHolding.runs_releaseValue
          intro last lastHolding
          exact Runs.pure (advances_of_changed lastHolding id (by simp))
  | referenceExchange self sym val map newMap =>
      apply Runs.bind
      apply runs_exchange begins rfl rfl rfl (by simp [Activity.ns])
      intro replaced changed after holding isNamespace unchanged
      cases replaced with
      | false => exact Runs.pure (advances_goto holding rfl isNamespace rfl rfl
          (fun _ => unchanged rfl) id)
      | true =>
          rw [add_assoc] at holding
          apply Runs.bind
          apply holding.runs_release
          intro second secondHolding
          apply Runs.bind
          apply secondHolding.runs_release
          intro last lastHolding
          exact Runs.pure (advances_of_changed lastHolding id (by simp))
  | addAliasExchange self sym ns map newMap =>
      apply Runs.bind
      apply runs_exchange begins rfl rfl rfl (by simp [Activity.ns])
      intro replaced changed after holding isNamespace unchanged
      cases replaced with
      | false => exact Runs.pure (advances_goto holding rfl isNamespace rfl rfl
          (fun _ => unchanged rfl) id)
      | true =>
          have ordered : ({self} + {sym} + {ns} : Multiset Address) =
              {sym} + ({ns} + ({self} + 0)) := by
            abel
          apply Runs.bind
          apply (holding.congr ordered).runs_release
          intro second secondHolding
          apply Runs.bind
          apply secondHolding.runs_release
          intro third thirdHolding
          apply Runs.bind
          apply thirdHolding.runs_release
          intro last lastHolding
          exact Runs.pure (advances_of_changed lastHolding id (by simp))
  | removeExchange field self sym map newMap =>
      apply Runs.bind
      apply runs_exchange begins rfl rfl rfl (by simp [Activity.ns])
      intro replaced changed after holding isNamespace unchanged
      cases replaced with
      | false => exact Runs.pure (advances_goto holding rfl isNamespace rfl rfl
          (fun _ => unchanged rfl) id)
      | true =>
          apply Runs.bind
          apply holding.runs_release
          intro second secondHolding
          apply Runs.bind
          apply (secondHolding.congr (add_zero {sym}).symm).runs_release
          intro last lastHolding
          exact Runs.pure (advances_of_changed lastHolding id (by simp))

end Steps

end NamespaceCalls
end Runtime
end ClojureRt
