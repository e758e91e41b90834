import ClojureRt.Runtime.NamespaceCalls.Steps

/-!
# Steps that do not account for their references

`PersistentArrayMap_assoc` throws past the functions of a namespace, which then
keep what they hold.  A rejected mapping is given up twice.
-/

namespace ClojureRt
namespace Runtime
namespace NamespaceCalls

open RefCount RefCount.Program
open ClojureRt.Runtime.PersistentArrayMap
  (Address RTValue ArrayMap Object MapHeap Code addresses retainValue
    releaseValue emptyArrayMap refs Framed Full valueOf refs_nonneg)

section Crowded

variable
  {equals : MapHeap → RTValue → RTValue → Bool}
  {base heap : MapHeap}
  {held : Multiset Address}
  {self sym : Address}

/-- The step throws, and the call still holds its namespace. -/
def Leaks (heap : MapHeap) (activity : Activity) (progress : Progress)
    (after : MapHeap) : Prop :=
  ∃ exception leaked, progress = .throws exception ∧ activity.ns ∈ leaked ∧
    Holding heap activity.held (fun _ => False) after leaked

/-- A full map has nothing for the symbol. -/
theorem value_of_full
    {found : ArrayMap}
    (isFull : Full equals heap (.pointer sym) found) :
    valueOf (AssocList.get (equals heap) (.pointer sym) found.entries) =
      .boxNil := by
  have absent : AssocList.get (equals heap) (.pointer sym) found.entries =
      none := by
    rw [AssocList.get_eq_none_iff]
    exact List.findIdx?_eq_none_iff.mp isFull.1
  rw [absent]
  rfl

theorem runs_leaking
    {activity : Activity}
    {field : Field}
    (begins : Begins equals base activity)
    (holding : Holding base activity.held (fun _ => False) heap held)
    {map : Address}
    {found : ArrayMap}
    (reads : Reads base field activity.ns map found)
    (isFull : Full equals base (.pointer sym) found)
    (selfHeld : activity.ns ∈ held)
    (symHeld : sym ∈ held)
    (symBase : ∃ object, base.object? sym = some object)
    {value : RTValue}
    (valueHeld : ∀ address ∈ addresses value, address ∈ held)
    {next : Address → Activity} :
    Runs (extend equals map sym value next) heap (Leaks base activity) := by
  rw [← holding.full_kept begins.framed begins.nonneg reads selfHeld symHeld
    symBase] at isFull
  apply holding.runs_extendFull begins.framed.countBlind
    (holding.reads_kept selfHeld reads) symHeld valueHeld isFull
  intro after afterHolding
  exact ⟨_, held, rfl, selfHeld, afterHolding⟩

/-- A call that meets a full map leaves its references behind. -/
theorem runs_crowded
    {activity : Activity}
    (begins : Begins equals base activity)
    (crowded : Crowded equals base activity) :
    Runs (advance equals activity) base (Leaks base activity) := by
  obtain ⟨field, self, sym, map, found, isGrowing, reads, isFull⟩ := crowded
  have isNil := value_of_full isFull
  cases activity with
  | internLoad self sym v =>
      cases isGrowing
      have symHeld : sym ∈ (Activity.internLoad self sym v).held := by
        simp [Activity.held]
      apply Runs.bind
      apply begins.holding.runs_lookup begins.framed.countBlind reads symHeld
      intro o first isValue firstHolding
      rw [isNil] at isValue
      have ordered : valueRefs o + (Activity.internLoad self sym v).held =
          optionRefs v + ({self} + {sym} + valueRefs o) := by
        rw [Activity.held]
        abel
      replace firstHolding := firstHolding.congr ordered
      dsimp only
      rw [if_pos isValue]
      apply Runs.bind
      apply runs_ownVar firstHolding (by simp) (by simp)
      intro own second secondHolding
      exact runs_leaking begins secondHolding reads isFull
        (by simp [Activity.ns]) (by simp)
        (begins.covers.present symHeld) (by simp [addresses])
  | replaceReload self sym v o =>
      cases isGrowing
      have symHeld : sym ∈ (Activity.replaceReload self sym v o).held := by
        simp [Activity.held]
      apply Runs.bind
      apply Holding.runs_loadField reads
      exact runs_leaking begins begins.holding reads isFull
        (by simp [Activity.ns, Activity.held])
        symHeld (begins.covers.present symHeld)
          (by simp [addresses, Activity.held])
  | referenceLoad self sym val =>
      cases isGrowing
      have symHeld : sym ∈ (Activity.referenceLoad self sym val).held := by
        simp [Activity.held]
      apply Runs.bind
      apply begins.holding.runs_lookup begins.framed.countBlind reads symHeld
      intro o first isValue firstHolding
      rw [isNil] at isValue
      rw [Activity.held] at firstHolding
      dsimp only
      rw [if_pos isValue]
      exact runs_leaking begins firstHolding reads isFull
        (by simp [Activity.ns]) (by simp) (begins.covers.present symHeld)
        fun address isIn =>
          by simp [show address ∈ valueRefs val from Multiset.mem_coe.mpr isIn]
  | addAliasLoad self sym ns =>
      cases isGrowing
      have symHeld : sym ∈ (Activity.addAliasLoad self sym ns).held := by
        simp [Activity.held]
      apply Runs.bind
      apply begins.holding.runs_lookup begins.framed.countBlind reads symHeld
      intro o first isValue firstHolding
      rw [isNil] at isValue
      rw [Activity.held] at firstHolding
      dsimp only
      rw [if_pos isValue]
      exact runs_leaking begins firstHolding reads isFull
        (by simp [Activity.ns]) (by simp)
        (begins.covers.present symHeld) (by simp [addresses])
  | called | internExchange | replaceExchange | referenceExchange |
      addAliasExchange
  | removeLoad | removeExchange => cases isGrowing

end Crowded

/-! ## Rejected mappings -/

section Rejected

variable
  {equals : MapHeap → RTValue → RTValue → Bool}
  {base heap : MapHeap}
  {self sym : Address}

/-- A release takes a reference, whether or not there is one to take. -/
theorem ensures_release
    {address : Address}
    {post : Unit → MapHeap → Prop}
    (holds : ∀ after : MapHeap,
      (∀ other, after.excess other = heap.excess other - own address other) →
      post () after) :
    Ensures (release address) heap post := by
  constructor
  rintro ⟨⟩ after result
  obtain ⟨released, isReleased, same⟩ := Option.map_eq_some_iff.mp result
  cases same
  apply holds
  intro other
  rw [(releaseAll_effect isReleased).excess, owns_cons, owns_nil, add_zero,
    Pi.neg_apply]
  rfl

theorem ensures_releaseValue
    {value : RTValue}
    {post : Unit → MapHeap → Prop}
    (holds : ∀ after : MapHeap,
      (∀ other, after.excess other = heap.excess other - refs value other) →
      post () after) :
    Ensures (releaseValue value) heap post := by
  cases value with
  | word bits =>
      exact Ensures.pure (holds heap (by simp [PersistentArrayMap.refs_word]))
  | pointer address =>
      apply ensures_release
      rw [PersistentArrayMap.refs_pointer] at holds
      exact holds

/-- The step throws, and the namespace has lost a reference too many. -/
def Overreleases
    (heap : MapHeap)
    (activity : Activity)
    (progress : Progress)
    (after : MapHeap) : Prop :=
  (∃ exception, progress = .throws exception) ∧
    after.excess activity.ns < heap.excess activity.ns - counts activity.held
      activity.ns

theorem runs_toString
    {consumed held : Multiset Address}
    {value : RTValue}
    (holding : Holding base consumed (fun _ => False) heap
      (valueRefs value + held))
    {post : Address → MapHeap → Prop}
    (holds : ∀ string after,
      Holding base consumed (fun _ => False) after ({string} + held) →
      post string after) :
    Runs (toString value) heap post := by
  unfold toString
  have nothing : valueRefs value + held = ([] : List Address) +
      (valueRefs value + held) := by
    rw [Multiset.coe_nil, zero_add]
  apply Runs.bind
  apply (holding.congr nothing).runs_allocate (by decide)
  intro first _ firstHolding
  apply Runs.bind
  apply (firstHolding.congr (add_left_comm _ _ _)).runs_releaseValue
  intro after afterHolding
  exact Runs.pure (holds heap.next after afterHolding)

theorem runs_compactify
    {consumed held : Multiset Address}
    {string : Address}
    (holding : Holding base consumed (fun _ => False) heap ({string} + held))
    {post : Address → MapHeap → Prop}
    (holds : ∀ flat after,
      Holding base consumed (fun _ => False) after ({flat} + held) →
      post flat after) :
    Runs (compactify string) heap post := by
  obtain ⟨object, found⟩ :=
    holding.covers.present (show string ∈ {string} + held by simp)
  unfold compactify
  apply Runs.bind
  apply Runs.load found
  split
  · have nothing : {string} + held = ([] : List Address) +
        ({string} + held) := by
      rw [Multiset.coe_nil, zero_add]
    apply Runs.bind
    apply (holding.congr nothing).runs_allocate (by decide)
    intro first _ firstHolding
    apply Runs.bind
    apply (firstHolding.congr (add_left_comm _ _ _)).runs_release
    intro after afterHolding
    exact Runs.pure (holds heap.next after afterHolding)
  · exact Runs.pure (holds string heap holding)

/-- The message takes nothing. -/
theorem runs_message
    {consumed held : Multiset Address}
    {o : RTValue}
    (holding : Holding base consumed (fun _ => False) heap held)
    (oHeld : ∀ address ∈ addresses o, address ∈ held)
    {β : Type}
    {next : Code β}
    {post : β → MapHeap → Prop}
    (ensures : ∀ after, Holding base consumed (fun _ => False) after held →
      Ensures next after post) :
    Ensures (do
      retainValue o
      let oStr ← toString o
      retain oStr
      let flatOStr ← compactify oStr
      release flatOStr
      release oStr
      next) heap post := by
  apply Ensures.bind_of_runs
  apply holding.runs_retainValue fun address isIn =>
    holding.covers.present (oHeld address isIn)
  intro first _ firstHolding
  apply Ensures.bind_of_runs
  apply runs_toString firstHolding
  intro oStr second secondHolding
  apply Ensures.bind_of_runs
  apply secondHolding.runs_retain (secondHolding.covers.present (by simp))
  intro third _ thirdHolding
  apply Ensures.bind_of_runs
  apply runs_compactify thirdHolding
  intro flatOStr fourth fourthHolding
  apply Ensures.bind_of_runs
  apply fourthHolding.runs_release
  intro fifth fifthHolding
  apply Ensures.bind_of_runs
  apply fifthHolding.runs_release
  exact ensures

/-- All is given up, and then once more. -/
theorem ensures_rejectReference
    {val o : RTValue}
    (holding : Holding base (Activity.referenceLoad self sym val).held
      (fun _ => False) heap (valueRefs o + ({self} + {sym} + valueRefs val))) :
    Ensures (rejectReference self sym val o) heap
      (Overreleases base (.referenceLoad self sym val)) := by
  unfold rejectReference
  apply runs_message holding
  · intro address isIn
    simp [show address ∈ valueRefs o from Multiset.mem_coe.mpr isIn]
  intro first firstHolding
  have ordered : valueRefs o + ({self} + {sym} + valueRefs val) =
      valueRefs o + (valueRefs val + ({sym} + ({self} + 0))) := by
    abel
  apply Ensures.bind_of_runs
  apply (firstHolding.congr ordered).runs_releaseValue
  intro second secondHolding
  apply Ensures.bind_of_runs
  apply secondHolding.runs_releaseValue
  intro third thirdHolding
  apply Ensures.bind_of_runs
  apply thirdHolding.runs_release
  intro fourth fourthHolding
  apply Ensures.bind_of_runs
  apply fourthHolding.runs_release
  intro fifth fifthHolding
  -- from here on nothing is left to give up
  apply Ensures.bind
  apply ensures_releaseValue
  intro sixth sixthExcess
  apply Ensures.bind
  apply ensures_release
  intro seventh seventhExcess
  apply Ensures.bind
  apply ensures_release
  intro eighth eighthExcess
  apply Ensures.bind
  apply ensures_releaseValue
  intro after afterExcess
  apply Ensures.pure
  refine ⟨⟨_, rfl⟩, ?_⟩
  have selfLess : after.excess self < fifth.excess self := by
    rw [afterExcess, eighthExcess, seventhExcess, sixthExcess, own_self]
    have := refs_nonneg o self
    have := own_nonneg sym self
    have := refs_nonneg val self
    omega
  have selfFifth := fifthHolding.effect.excess self
  rw [Pi.sub_apply, counts_zero, Pi.zero_apply] at selfFifth
  change after.excess self < base.excess self - counts _ self
  omega

/-- A new mapping that is rejected takes references that are not its own. -/
theorem ensures_rejected
    {activity : Activity}
    (begins : Begins equals base activity)
    (rejects : Rejects equals base activity) :
    Ensures (advance equals activity) base (Overreleases base activity) := by
  cases activity with
  | referenceLoad self sym val =>
      obtain ⟨map, found, reads, different, interned⟩ := rejects
      have symHeld : sym ∈ (Activity.referenceLoad self sym val).held := by
        simp [Activity.held]
      have symBase := begins.covers.present symHeld
      have valHeld (address : Address) (isIn : address ∈ addresses val) :
          address ∈ valueRefs val := by
        rwa [valueRefs, Multiset.mem_coe]
      have valBase (address : Address) (isIn : address ∈ addresses val) :
          ∃ object, base.object? address = some object :=
        begins.covers.present (by simp [Activity.held, valHeld address isIn])
      change Ensures (referenceLoad equals self sym val) base _
      unfold referenceLoad
      apply Ensures.bind_of_runs
      apply begins.holding.runs_lookup begins.framed.countBlind reads symHeld
      intro o first isValue firstHolding
      rw [← isValue] at different interned
      rw [Activity.held] at firstHolding
      have oBase := present_of_reads begins.nonneg reads isValue
      have oHeld (address : Address) (isIn : address ∈ addresses o) :
          address ∈ valueRefs o := by
        rwa [valueRefs, Multiset.mem_coe]
      have notNil : o ≠ .boxNil := by
        rintro rfl
        cases interned
      dsimp only
      rw [if_neg notNil]
      have sameTest : equals first o val = equals base o val := by
        apply firstHolding.equals_kept begins.framed begins.nonneg
        intro address isIn
        rcases List.mem_append.mp isIn with inO | inVal
        · exact ⟨oBase address inO,
            firstHolding.covers.present (by simp [oHeld address inO])⟩
        · exact ⟨valBase address inVal,
            firstHolding.covers.present (by simp [valHeld address inVal])⟩
      apply Ensures.bind_of_runs
      apply Holding.runs_equalValues
      rw [sameTest, different, if_neg Bool.false_ne_true]
      apply Ensures.bind_of_runs
      apply firstHolding.runs_retain (firstHolding.covers.present (by simp))
      intro second _ secondHolding
      apply Ensures.bind_of_runs
      apply secondHolding.runs_retain (secondHolding.covers.present (by simp))
      intro third _ thirdHolding
      apply Ensures.bind_of_runs
      apply thirdHolding.runs_retainValue
      · intro address isIn
        exact thirdHolding.covers.present (by simp [oHeld address isIn])
      intro fourth _ fourthHolding
      apply Ensures.bind_of_runs
      apply fourthHolding.runs_retainValue
      · intro address isIn
        exact fourthHolding.covers.present (by simp [valHeld address isIn])
      intro fifth _ fifthHolding
      have forCheck : valueRefs val + (valueRefs o + ({sym} + ({self} +
          (valueRefs o + ({self} + {sym} + valueRefs val))))) =
          {self} + {sym} + valueRefs o + valueRefs val +
            (valueRefs o + ({self} + {sym} + valueRefs val)) := by
        abel
      apply Ensures.bind_of_runs
      apply (fifthHolding.congr forCheck).runs_checkReplacement begins.framed
        begins.nonneg oBase symBase
      intro sixth sixthHolding
      rw [interned, Bool.not_true, if_neg Bool.false_ne_true]
      exact ensures_rejectReference sixthHolding
  | called | internLoad | internExchange | replaceReload | replaceExchange |
      referenceExchange
  | addAliasLoad | addAliasExchange | removeLoad | removeExchange =>
      exact rejects.elim

end Rejected

end NamespaceCalls
end Runtime
end ClojureRt
