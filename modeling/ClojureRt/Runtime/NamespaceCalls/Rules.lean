import ClojureRt.Runtime.NamespaceCalls.Defs
import Mathlib.Tactic.Abel

/-!
# Rules for references to namespaces

Each rule says that a piece of code runs, and which references it turns into
which.  What a call holds is a multiset of references, and since the start of a
step only a namespace has other fields than before.
-/

namespace ClojureRt
namespace Runtime
namespace NamespaceCalls

open RefCount RefCount.Program
open ClojureRt.Runtime.PersistentArrayMap
  (Address RTValue ArrayMap Object MapHeap Code addresses loadMap retainValue
    releaseValue emptyArrayMap refs Has Framed Full Retained valueOf)

/-! ## References -/

/-- How often each address is among the references. -/
def counts (held : Multiset Address) : Address → Int :=
  fun address => held.count address

/-- The references of a value. -/
def valueRefs (value : RTValue) : Multiset Address :=
  addresses value

/-- The reference to an object that there may be. -/
def optionRefs : Option Address → Multiset Address
  | some address => {address}
  | none => 0

theorem counts_zero : counts 0 = 0 := by
  funext address
  simp [counts]

/-- Two lots of references are counted together. -/
theorem counts_add (first second : Multiset Address) :
    counts (first + second) = counts first + counts second := by
  funext address
  simp [counts]

/-- A list of references, counted. -/
theorem counts_coe (references : List Address) :
    counts references = owns references := by
  funext address
  rw [counts, Multiset.coe_count, owns]

/-- One reference. -/
theorem counts_singleton (address : Address) : counts
    {address} = own address := by
  funext other
  simp only [counts, own, Multiset.count_singleton]
  split <;> rfl

/-- One more reference in a list. -/
theorem coe_cons (address : Address) (references : List Address) :
    ((address :: references : List Address) : Multiset Address) =
      {address} + (references : Multiset Address) := by
  rw [Multiset.singleton_add, Multiset.cons_coe]

/-- The references of a value, counted. -/
theorem counts_valueRefs (value : RTValue) : counts
    (valueRefs value) = refs value :=
  counts_coe _

/-- Nothing is held a negative number of times. -/
theorem counts_nonneg (held : Multiset Address) (address : Address) :
    0 ≤ counts held address :=
  Int.natCast_nonneg _

/-- What is held is counted. -/
theorem counts_pos {held : Multiset Address} {address : Address}
    (isHeld : address ∈ held) :
    0 < counts held address := by
  have := Multiset.count_pos.mpr isHeld
  unfold counts
  omega

/-- The counts cover the references, and that of the runtime to the empty
map. -/
def Covers (heap : MapHeap) (held : Multiset Address) : Prop :=
  ∀ address,
    counts held address + own emptyArrayMap address ≤ heap.excess address

namespace Covers

variable {heap : MapHeap} {held : Multiset Address} {address : Address}

/-- With fewer references the counts still suffice. -/
theorem mono {fewer : Multiset Address} (covers : Covers heap held)
    (le : fewer ≤ held) :
    Covers heap fewer := by
  intro address
  have := covers address
  have := Multiset.count_le_of_le address le
  unfold counts at *
  omega

/-- No count is below what the heap refers to. -/
theorem nonneg (covers : Covers heap held) (address : Address) :
    0 ≤ heap.excess address := by
  have := covers address
  have := counts_nonneg held address
  have := own_nonneg emptyArrayMap address
  omega

/-- What is held has a count of its own. -/
theorem excess_pos (covers : Covers heap held) (isHeld : address ∈ held) :
    0 < heap.excess address := by
  have := covers address
  have := counts_pos isHeld
  have := own_nonneg emptyArrayMap address
  omega

/-- What is held is on the heap. -/
theorem present (covers : Covers heap held) (isHeld : address ∈ held) :
    ∃ object, heap.object? address = some object :=
  Heap.object_of_owned (covers.excess_pos isHeld)

/-- What a call consumes is there to be consumed. -/
theorem has
    {consumed : List Address}
    {rest : Multiset Address}
    (covers : Covers heap held)
    (isHeld : held = consumed + rest) : Has heap consumed := by
  intro address
  rw [← counts_coe]
  apply covers.mono
  rw [isHeld]
  exact Multiset.le_add_right _ _

end Covers

/-! ## Types -/

/-- The object at an address, if there is one, meets a condition. -/
def Is (condition : Object → Prop) (heap : MapHeap)
    (address : Address) : Prop :=
  address < heap.next ∧ ∀ object, heap.object? address = some object →
    condition object

/-- A map whose keys are objects. -/
def IsMap (object : Object) : Prop :=
  ∃ map, object = .map map ∧ ∀ entry ∈ map.entries, ∃ key,
    entry.1 = .pointer key

/-- An object that is a namespace. -/
def IsNamespace (object : Object) : Prop :=
  ∃ ns, Namespace.ofObject object = some ns

/-- An object that is a symbol. -/
def IsSymbol (object : Object) : Prop :=
  ∃ qualified text, kindOf object = some (.symbolType qualified text)

/-- The fields of namespaces are maps whose keys are objects. -/
structure Typed (heap : MapHeap) : Prop where
  fields : ∀ address object ns, heap.object? address = some object →
    Namespace.ofObject object = some ns → ∀ field, Is IsMap heap (ns.get field)

/-- The object that is there meets the condition. -/
theorem Is.of_found
    {condition : Object → Prop}
    {heap : MapHeap}
    {address : Address}
    {object : Object}
    (found : heap.object? address = some object)
    (meets : condition object) : Is condition heap address := by
  refine ⟨Heap.lt_next_of_object found, ?_⟩
  intro other isOther
  rw [found, Option.some.injEq] at isOther
  rwa [← isOther]

/-- A namespace is recognised. -/
theorem ofObject_object
    (ns : Namespace) : Namespace.ofObject ns.object = some ns := rfl

/-- What is recognised as a namespace is one. -/
theorem eq_of_ofObject
    {object : Object}
    {ns : Namespace}
    (isNamespace : Namespace.ofObject object = some ns) :
    object = ns.object := by
  unfold Namespace.ofObject at isNamespace
  split at isNamespace
  · split at isNamespace
    · next isType =>
        cases isNamespace
        rw [isType]
        rfl
    · cases isNamespace
  · cases isNamespace

/-- Only a namespace is recognised as one. -/
theorem eq_namespaceType
    {kind : Kind}
    {references : List Address}
    {ns : Namespace}
    (isNamespace : Namespace.ofObject (kind.object references) = some ns) :
    kind = .namespaceType := by
  have sameKind := congrArg kindOf (eq_of_ofObject isNamespace)
  rw [kindOf_object, Namespace.object, kindOf_object,
    Option.some.injEq] at sameKind
  exact sameKind

/-- A map is in a field of a namespace. -/
structure Reads
    (heap : MapHeap)
    (field : Field)
    (address map : Address)
    (found : ArrayMap) : Prop where
  exists_ns : ∃ ns : Namespace, heap.object? address = some ns.object ∧
    ns.get field = map
  isMap : heap.object? map = some (.map found)

/-- A namespace refers to its maps. -/
theorem get_mem_references (ns : Namespace) (field : Field) :
    ns.get field ∈ Referencing.references ns.object := by
  change _ ∈ [ns.name, ns.mappings, ns.aliases]
  cases field <;> simp [Namespace.get]

/-- The key that is added is an object. -/
theorem keys_assoc
    {compare : RTValue → RTValue → Bool}
    {sym : Address}
    {value : RTValue}
    {entries : PersistentArrayMap.Entries}
    (keys : ∀ entry ∈ entries, ∃ key, entry.1 = .pointer key) :
    ∀ entry ∈ AssocList.assoc compare (.pointer sym) value entries,
      ∃ key, entry.1 = .pointer key := by
  intro entry isEntry
  rcases AssocList.key_of_mem_assoc isEntry with ⟨old, isOld, same⟩ | isNew
  · rw [← same]
    exact keys old isOld
  · exact ⟨sym, isNew⟩

/-- Only the field that is set has another map. -/
theorem Namespace.get_set (ns : Namespace) (new : Address)
    (field other : Field) :
    (ns.set new field).get other = if other = field then new else ns.get
    other := by
  cases field <;> cases other <;> rfl

/-- A namespace gives up its old map and takes the new one. -/
theorem Namespace.owns_set (ns : Namespace) (new : Address) (field : Field) :
    owns (Referencing.references ns.object) -
        owns (Referencing.references (ns.set new field).object) =
      own (ns.get field) - own new := by
  change owns [ns.name, ns.mappings, ns.aliases] -
    owns [(ns.set new field).name, (ns.set new field).mappings,
      (ns.set new field).aliases] = _
  simp only [owns_cons, owns_nil]
  cases field
  · simp only [Namespace.set, Namespace.get]
    abel
  · simp only [Namespace.set, Namespace.get]
    abel

/-- What is no Var is not interned. -/
theorem isInternedObject_eq_false
    {equals : MapHeap → RTValue → RTValue → Bool}
    {heap : MapHeap}
    {self sym : Address}
    {object : Object}
    (notVar : ∀ ns, kindOf object = some (.varType ns) → False) :
    isInternedObject equals heap self sym object = false := by
  unfold isInternedObject
  split
  · next content varSym rest =>
      rw [Bool.and_eq_false_iff, beq_eq_false_iff_ne]
      exact Or.inl fun isVar => notVar (some self) (congrArg some isVar)
  · rfl

/-! ## What a step holds -/

/-- Since a heap `base`, the consumed references have become the held ones,
which are counted, and what was changed is a namespace. -/
structure Holding
    (base : MapHeap)
    (consumed : Multiset Address)
    (changed : Address → Prop)
    (heap : MapHeap)
    (held : Multiset Address) : Prop where
  effect : Effect base heap (counts held - counts consumed) changed
  covers : Covers heap held
  typed : Typed heap
  namespaces : ∀ address, changed address →
    (∃ object, base.object? address = some object ∧ IsNamespace object) ∧
      Is IsNamespace heap address

namespace Holding

variable
  {base heap : MapHeap}
  {consumed held rest : Multiset Address}
  {changed : Address → Prop}
  {self sym address : Address}

/-- At the start of a call nothing is consumed or changed. -/
theorem start (covers : Covers base held) (typed : Typed base) :
    Holding base held (fun _ => False) base held where
  effect := (Effect.refl base).weaken (sub_self _).symm fun _ _ => id
  covers := covers
  typed := typed
  namespaces := by simp

/-- The references may be written otherwise. -/
theorem congr {same : Multiset Address}
    (holding : Holding base consumed changed heap held)
    (isSame : held = same) : Holding base consumed changed heap same := by
  rwa [← isSame]

/-- Who is neither a namespace nor becomes one stays as it is. -/
theorem is_kept
    {condition : Object → Prop}
    (holding : Holding base consumed changed heap held)
    (noNamespace : ∀ object, condition object → ¬ IsNamespace object)
    (is : Is condition base address) : Is condition heap address := by
  refine ⟨is.1.trans_le holding.effect.next_le, ?_⟩
  intro object found
  obtain ⟨cell, isCell, rfl⟩ := Option.map_eq_some_iff.mp found
  by_cases isChanged : changed address
  · obtain ⟨⟨old, isOld, oldNamespace⟩, _⟩ :=
      holding.namespaces address isChanged
    exact absurd oldNamespace (noNamespace old (is.2 old isOld))
  · exact is.2 _ (holding.effect.kept address cell is.1 isChanged isCell)

/-- A namespace stays one. -/
theorem isNamespace
    (holding : Holding base consumed changed heap held)
    (is : Is IsNamespace base address) : Is IsNamespace heap address := by
  by_cases isChanged : changed address
  · exact (holding.namespaces address isChanged).2
  · refine ⟨is.1.trans_le holding.effect.next_le, ?_⟩
    intro object found
    obtain ⟨cell, isCell, rfl⟩ := Option.map_eq_some_iff.mp found
    exact is.2 _ (holding.effect.kept address cell is.1 isChanged isCell)

/-- The rules for code that changes no object that was there before. -/
theorem of_since
    {after : MapHeap}
    {given : Multiset Address}
    {written : Address → Prop}
    (holding : Holding base consumed changed heap held)
    (since : Since heap after (counts given - counts held) (fun _ => False)
      written)
    (new : ∀ address object,
      written address → after.object? address = some object →
      heap.next ≤ address ∧ ¬ IsNamespace object) :
    Holding base consumed changed after given where
  effect := by
    apply (holding.effect.trans_unchanged since.effect).weaken _ fun _ _ => id
    abel
  covers := by
    intro address
    have := holding.covers address
    rw [since.effect.excess, Pi.sub_apply]
    omega
  typed := by
    have old {address : Address} {object : Object}
        (found : after.object? address = some object)
        (isOld : address < heap.next) :
        heap.object? address = some object := by
      by_cases isWritten : written address
      · exact absurd isOld
          (Nat.not_lt.mpr (new address object isWritten found).1)
      · exact since.kept address object found isWritten
    constructor
    intro address object ns found isNs field
    have unwritten : ¬ written address := by
      intro isWritten
      exact (new address object isWritten found).2 ⟨ns, isNs⟩
    have isField := holding.typed.fields address object ns
      (since.kept address object found unwritten) isNs field
    exact ⟨isField.1.trans_le since.effect.next_le, fun other isOther =>
      isField.2 other (old isOther isField.1)⟩
  namespaces := by
    intro address isChanged
    obtain ⟨isOld, isNow⟩ := holding.namespaces address isChanged
    refine ⟨isOld, isNow.1.trans_le since.effect.next_le, ?_⟩
    intro object found
    by_cases isWritten : written address
    · exact absurd isNow.1
        (Nat.not_lt.mpr (new address object isWritten found).1)
    · exact isNow.2 object (since.kept address object found isWritten)

/-! ### Retaining and releasing -/

/-- The caller holds one reference more. -/
theorem runs_retain
    (holding : Holding base consumed changed heap held)
    (present : ∃ object, heap.object? address = some object)
    {post : Unit → MapHeap → Prop}
    (holds : ∀ after, after.object? = heap.object? →
      Holding base consumed changed after ({address} + held) → post () after) :
    Runs (retain address) heap post := by
  apply PersistentArrayMap.runs_retain (Since.refl heap) present
  intro after same since
  apply holds after same
  apply holding.of_since (since.weaken _ (fun _ => id) fun _ => id) (by simp)
  rw [counts_add, counts_singleton]
  abel

/-- The caller holds the references of the value. -/
theorem runs_retainValue
    (holding : Holding base consumed changed heap held)
    {value : RTValue}
    (present : ∀ address ∈ addresses value, ∃ object,
      heap.object? address = some object)
    {post : Unit → MapHeap → Prop}
    (holds : ∀ after, after.object? = heap.object? →
      Holding base consumed changed after (valueRefs value + held) →
        post () after) :
    Runs (retainValue value) heap post := by
  apply PersistentArrayMap.runs_retainValue (Since.refl heap) present
  intro after same since
  apply holds after same
  apply holding.of_since (since.weaken _ (fun _ => id) fun _ => id) (by simp)
  rw [counts_add, counts_valueRefs]
  abel

/-- A reference that is held is given up. -/
theorem runs_release
    (holding : Holding base consumed changed heap ({address} + held))
    {post : Unit → MapHeap → Prop}
    (holds : ∀ after, Holding base consumed changed after held →
      post () after) :
    Runs (release address) heap post := by
  apply PersistentArrayMap.runs_release (Since.refl heap)
  · intro other
    have := holding.covers other
    have := counts_nonneg held other
    have := own_nonneg emptyArrayMap other
    rw [counts_add, counts_singleton, Pi.add_apply] at *
    rw [Pi.zero_apply]
    omega
  intro after _ since
  apply holds after
  apply holding.of_since (since.weaken _ (fun _ => id) fun _ => id) (by simp)
  rw [counts_add, counts_singleton]
  abel

/-- The references of a value are given up. -/
theorem runs_releaseValue
    {value : RTValue}
    (holding : Holding base consumed changed heap (valueRefs value + held))
    {post : Unit → MapHeap → Prop}
    (holds : ∀ after, Holding base consumed changed after held →
      post () after) :
    Runs (releaseValue value) heap post := by
  cases value with
  | word bits => exact Runs.pure (holds heap (holding.congr (zero_add held)))
  | pointer address => exact runs_release holding holds

/-- The Var is given up, if there is one. -/
theorem runs_releaseVar
    {v : Option Address}
    (holding : Holding base consumed changed heap (optionRefs v + held))
    {post : Unit → MapHeap → Prop}
    (holds : ∀ after, Holding base consumed changed after held →
      post () after) :
    Runs (releaseVar v) heap post := by
  cases v with
  | none => exact Runs.pure (holds heap (holding.congr (zero_add held)))
  | some address => exact runs_release holding holds

/-- An object that is neither a map nor a namespace. -/
theorem runs_allocate
    {kind : Kind}
    {references : List Address}
    (holding : Holding base consumed changed heap (references + held))
    (noNamespace : kind ≠ .namespaceType)
    {post : Address → MapHeap → Prop}
    (holds : ∀ after, after.object? heap.next = some (kind.object references) →
      Holding base consumed changed after ({heap.next} + held) →
        post heap.next after) :
    Runs (allocate (kind.object references)) heap post := by
  apply PersistentArrayMap.runs_allocate (Since.refl heap)
  intro after found _ since
  apply holds after found
  apply holding.of_since (since.weaken _ (fun _ => id) fun _ => id)
  · rintro address object (never | isNew) isObject
    · exact never.elim
    · subst isNew
      rw [found, Option.some.injEq] at isObject
      subst isObject
      refine ⟨Nat.le_refl _, ?_⟩
      rintro ⟨ns, isNs⟩
      exact noNamespace (eq_namespaceType isNs)
  · rw [counts_add, counts_add, counts_singleton, counts_coe]
    change 0 + (own heap.next - owns references) = _
    abel

/-! ### The maps of a namespace -/

/-- The namespace is read, and nothing changes. -/
theorem runs_loadNamespace
    {ns : Namespace}
    (found : heap.object? self = some ns.object)
    {post : Namespace → MapHeap → Prop}
    (holds : post ns heap) : Runs (loadNamespace self) heap post := by
  unfold loadNamespace
  apply Runs.bind
  apply Runs.load found
  exact Runs.pure holds

/-- The map in a field is read, and nothing changes. -/
theorem runs_loadField
    {field : Field}
    {map : Address}
    {found : ArrayMap}
    (reads : Reads heap field self map found)
    {post : Address → MapHeap → Prop}
    (holds : post map heap) : Runs (loadField field self) heap post := by
  obtain ⟨ns, isNs, rfl⟩ := reads.exists_ns
  unfold loadField
  apply Runs.bind
  exact runs_loadNamespace isNs (Runs.pure holds)

/-- A namespace that is held has its maps. -/
theorem exists_reads
    (holding : Holding base consumed changed heap held)
    (isHeld : self ∈ held)
    (isNamespace : Is IsNamespace heap self)
    (field : Field) : ∃ map found, Reads heap field self map found := by
  obtain ⟨object, isObject⟩ := holding.covers.present isHeld
  obtain ⟨ns, isNs⟩ := isNamespace.2 object isObject
  have isThere := isObject
  rw [eq_of_ofObject isNs] at isThere
  obtain ⟨inField, isInField⟩ := Heap.object_of_reference
    holding.covers.nonneg isThere (get_mem_references ns field)
  obtain ⟨found, rfl, _⟩ :=
    (holding.typed.fields self object ns isObject isNs field).2 inField
    isInField
  exact ⟨ns.get field, found, ⟨ns, isThere, rfl⟩, isInField⟩

/-- What was read stays if it is not changed. -/
theorem reads_of_kept
    {after : MapHeap}
    {given : Multiset Address}
    (holding : Holding base consumed changed after given)
    (isHeld : self ∈ given)
    (kept : ∀ address object now, heap.object? address = some object →
      after.object? address = some now → now = object)
    {field : Field}
    {map : Address}
    {found : ArrayMap}
    (reads : Reads heap field self map found) :
    Reads after field self map found := by
  obtain ⟨ns, isNs, rfl⟩ := reads.exists_ns
  obtain ⟨object, isObject⟩ := holding.covers.present isHeld
  rw [kept self _ object isNs isObject] at isObject
  obtain ⟨inField, isInField⟩ := Heap.object_of_reference holding.covers.nonneg
    isObject (get_mem_references ns field)
  rw [kept _ _ inField reads.isMap isInField] at isInField
  exact ⟨⟨ns, isObject, rfl⟩, isInField⟩

/-- What was read at the start stays while nothing is written. -/
theorem reads_kept
    (holding : Holding base consumed (fun _ => False) heap held)
    (isHeld : self ∈ held)
    {field : Field}
    {map : Address}
    {found : ArrayMap}
    (reads : Reads base field self map found) :
    Reads heap field self map found :=
  holding.reads_of_kept isHeld
    (fun _ _ _ isOld isNow => holding.effect.object_eq isOld id isNow) reads

/-- A map that is read and held has more than one reference. -/
theorem count_ne_one
    (holding : Holding base consumed changed heap held)
    {field : Field}
    {map : Address}
    {found : ArrayMap}
    (reads : Reads heap field self map found)
    (isHeld : map ∈ held) : heap.count map ≠ 1 := by
  obtain ⟨ns, isNs, rfl⟩ := reads.exists_ns
  obtain ⟨cell, isCell, same⟩ := Option.map_eq_some_iff.mp isNs
  have refersFrom : ns.get field ∈ heap.referencesAt self := by
    rw [Heap.referencesAt, isCell]
    change _ ∈ Referencing.references cell.object
    rw [same]
    exact get_mem_references ns field
  have := Heap.incoming_pos refersFrom
  have := holding.covers.excess_pos isHeld
  unfold Heap.excess at this
  omega

section Maps

variable
  {equals : MapHeap → RTValue → RTValue → Bool}
  {field : Field}
  {map : Address}
  {found : ArrayMap}

/-- The lookup gives what the map has for the symbol, and consumes neither. -/
theorem runs_lookup
    (blind : PersistentArrayMap.CountBlind equals)
    (holding : Holding base consumed changed heap held)
    (reads : Reads heap field self map found)
    (symHeld : sym ∈ held)
    {post : Lookup → MapHeap → Prop}
    (holds : ∀ o after,
      o = valueOf (AssocList.get (equals heap) (.pointer sym) found.entries) →
      Holding base consumed changed after (valueRefs o + held) →
        post ⟨map, o⟩ after) :
    Runs (lookup equals field self sym) heap post := by
  unfold lookup
  apply Runs.bind
  apply runs_loadField reads
  apply Runs.bind
  apply runs_retain holding ⟨_, reads.isMap⟩
  intro first firstSame firstHolding
  apply Runs.bind
  apply runs_retain firstHolding
    (firstHolding.covers.present (Multiset.mem_add.mpr (Or.inr symHeld)))
  intro second secondSame secondHolding
  have isMap : second.object? map = some (.map found) := by
    rw [secondSame, firstSame, reads.isMap]
  apply Runs.bind
  have isBrought : {sym} + ({map} + held) =
      (map :: addresses (.pointer sym) : List Address) + held := by
    rw [addresses, coe_cons, coe_cons, Multiset.coe_nil]
    abel
  have has := secondHolding.covers.has isBrought
  apply (PersistentArrayMap.runs_getSince has isMap).mono
  rintro o after ⟨isValue, since⟩
  apply Runs.pure
  apply holds o after
  · rw [isValue, blind heap second (secondSame.trans firstSame)]
  · apply secondHolding.of_since (since.weaken _ (fun _ => id) fun _ => id)
      (by simp)
    simp only [counts_add, counts_singleton, counts_valueRefs,
      PersistentArrayMap.refs_pointer]
    abel

/-- The map, the symbol and the value are retained for
`PersistentArrayMap_assoc`. -/
theorem runs_brought
    (holding : Holding base consumed changed heap held)
    (reads : Reads heap field self map found)
    (symHeld : sym ∈ held)
    {value : RTValue}
    (valueHeld : ∀ address ∈ addresses value, address ∈ held)
    {β : Type}
    {next : Code β}
    {post : β → MapHeap → Prop}
    (holds : ∀ middle, middle.object? = heap.object? →
      Holding base consumed changed middle
        ({map} + {sym} + valueRefs value + held) →
      Runs next middle post) :
    Runs (do
      retain map
      retain sym
      retainValue value
      next) heap post := by
  apply Runs.bind
  apply runs_retain holding ⟨_, reads.isMap⟩
  intro first firstSame firstHolding
  apply Runs.bind
  apply runs_retain firstHolding
    (firstHolding.covers.present (Multiset.mem_add.mpr (Or.inr symHeld)))
  intro second secondSame secondHolding
  apply Runs.bind
  apply runs_retainValue secondHolding
  · intro address isIn
    apply secondHolding.covers.present
    simp [valueHeld address isIn]
  intro third thirdSame thirdHolding
  apply holds third (thirdSame.trans (secondSame.trans firstSame))
  apply thirdHolding.congr
  abel

/-- As long as the objects are the same, so is the map. -/
theorem reads_of_same
    {after : MapHeap}
    (same : after.object? = heap.object?)
    (reads : Reads heap field self map found) :
    Reads after field self map found := by
  obtain ⟨exists_ns, isMap⟩ := reads
  rw [← same] at exists_ns isMap
  exact ⟨exists_ns, isMap⟩

/-- The keys of the map are objects. -/
theorem keys_of_reads
    (holding : Holding base consumed changed heap held)
    (reads : Reads heap field self map found) :
    ∀ entry ∈ found.entries, ∃ key, entry.1 = .pointer key := by
  obtain ⟨⟨ns, isNs, rfl⟩, isMap⟩ := reads
  obtain ⟨other, same, keys⟩ :=
    (holding.typed.fields self ns.object ns isNs rfl field).2 _ isMap
  cases same
  exact keys

/-- The loop over the map skips no entry with references. -/
theorem retained_of_reads
    (holding : Holding base consumed changed heap held)
    (reads : Reads heap field self map found)
    {entry : RTValue × RTValue}
    (isEntry : entry ∈ found.entries) : Retained entry := by
  obtain ⟨key, isKey⟩ := holding.keys_of_reads reads entry isEntry
  refine Or.inl ?_
  rw [isKey]
  rfl

/-- A map that was written to a new address. -/
theorem of_writes
    {references : List Address}
    {updated : ArrayMap}
    {after : MapHeap}
    (holding : Holding base consumed changed heap (references + held))
    (writes : PersistentArrayMap.Writes heap references heap.next updated
      (fun _ => False) after)
    (keys : ∀ entry ∈ updated.entries, ∃ key, entry.1 = .pointer key) :
    Holding base consumed changed after ({heap.next} + held) ∧
      Is IsMap after heap.next := by
  have isHolding :
      Holding base consumed changed after ({heap.next} + held) := by
    apply holding.of_since (writes.since.weaken _ (fun _ => id) fun _ => id)
    · rintro address object rfl isObject
      have isUpdated := writes.stored object isObject
      refine ⟨Nat.le_refl _, ?_⟩
      rintro ⟨ns, isNs⟩
      rw [isUpdated] at isNs
      cases isNs
    · rw [counts_add, counts_add, counts_singleton, counts_coe]
      abel
  have newHeld : heap.next ∈ {heap.next} + held := by simp
  obtain ⟨object, isObject⟩ := isHolding.covers.present newHeld
  exact ⟨isHolding,
    Is.of_found isObject ⟨updated, writes.stored object isObject, keys⟩⟩

/-- The map with one more entry is a new one. -/
theorem runs_extend
    (blind : PersistentArrayMap.CountBlind equals)
    (holding : Holding base consumed changed heap held)
    (reads : Reads heap field self map found)
    (symHeld : sym ∈ held)
    {value : RTValue}
    (valueHeld : ∀ address ∈ addresses value, address ∈ held)
    (notFull : ¬ Full equals heap (.pointer sym) found)
    {next : Address → Activity}
    {post : Progress → MapHeap → Prop}
    (holds : ∀ newMap after,
      Holding base consumed changed after ({newMap} + held) →
      Is IsMap after newMap → post (.goto (next newMap)) after) :
    Runs (extend equals map sym value next) heap post := by
  unfold extend
  apply runs_brought holding reads symHeld valueHeld
  intro middle same middleHolding
  have middleReads := reads_of_same same reads
  have isBrought : {map} + {sym} + valueRefs value + held =
      (map :: (addresses (.pointer sym) ++ addresses value) : List Address) +
      held := by
    rw [coe_cons, ← Multiset.coe_add, addresses, coe_cons, Multiset.coe_nil,
      valueRefs]
    abel
  have has := middleHolding.covers.has isBrought
  have shared := middleHolding.count_ne_one middleReads (by simp)
  apply Runs.bind
  apply (PersistentArrayMap.runs_assocWrites blind middleReads.isMap has
    fun _ _ j entry _ isJ => middleHolding.retained_of_reads middleReads
      (List.mem_of_getElem? isJ)).mono
  intro result after done
  cases done with
  | full _ isFull since =>
      rw [Full, blind heap middle same] at isFull
      exact absurd isFull notFull
  | inPlace _ _ isOne writes => exact absurd isOne shared
  | copied _ _ writes =>
      apply Runs.pure
      obtain ⟨isHolding, isMap⟩ := (middleHolding.congr isBrought).of_writes
        writes (keys_assoc (middleHolding.keys_of_reads middleReads))
      exact holds middle.next after isHolding isMap

/-- A full map: what was retained for it is given up. -/
theorem runs_extendFull
    (blind : PersistentArrayMap.CountBlind equals)
    (holding : Holding base consumed changed heap held)
    (reads : Reads heap field self map found)
    (symHeld : sym ∈ held)
    {value : RTValue}
    (valueHeld : ∀ address ∈ addresses value, address ∈ held)
    (isFull : Full equals heap (.pointer sym) found)
    {next : Address → Activity}
    {post : Progress → MapHeap → Prop}
    (holds : ∀ after, Holding base consumed changed after held →
      post (.throws (.ofMap PersistentArrayMap.tooLarge)) after) :
    Runs (extend equals map sym value next) heap post := by
  unfold extend
  apply runs_brought holding reads symHeld valueHeld
  intro middle same middleHolding
  have middleReads := reads_of_same same reads
  have isBrought : {map} + {sym} + valueRefs value + held =
      (map :: (addresses (.pointer sym) ++ addresses value) : List Address) +
      held := by
    rw [coe_cons, ← Multiset.coe_add, addresses, coe_cons, Multiset.coe_nil,
      valueRefs]
    abel
  have has := middleHolding.covers.has isBrought
  rw [Full, ← blind heap middle same] at isFull
  apply Runs.bind
  apply (PersistentArrayMap.runs_assocWrites blind middleReads.isMap has
    fun _ _ j entry _ isJ => middleHolding.retained_of_reads middleReads
      (List.mem_of_getElem? isJ)).mono
  intro result after done
  cases done with
  | full _ _ since =>
      apply Runs.pure
      apply holds after
      apply (middleHolding.congr isBrought).of_since
        (since.weaken _ (fun _ => id) fun _ => id)
      · simp
      · rw [counts_add, counts_coe]
        abel
  | inPlace _ notFull _ _ => exact absurd isFull notFull
  | copied _ notFull _ => exact absurd isFull notFull

/-- The map without the symbol. -/
theorem runs_reduce
    (blind : PersistentArrayMap.CountBlind equals)
    (holding : Holding base consumed changed heap held)
    (reads : Reads heap field self map found)
    (selfHeld : self ∈ held)
    (symHeld : sym ∈ held)
    {β : Type}
    {next : Address → Code β}
    {post : β → MapHeap → Prop}
    (holds : ∀ newMap after,
      Holding base consumed changed after ({newMap} + held) →
      Is IsMap after newMap → Runs (next newMap) after post) :
    Runs (do
      retain map
      retain sym
      let newMap ← PersistentArrayMap.dissoc equals map (.pointer sym)
      next newMap) heap post := by
  apply Runs.bind
  apply runs_retain holding ⟨_, reads.isMap⟩
  intro first firstSame firstHolding
  apply Runs.bind
  apply runs_retain firstHolding
    (firstHolding.covers.present (Multiset.mem_add.mpr (Or.inr symHeld)))
  intro second secondSame secondHolding
  have secondReads := reads_of_same (secondSame.trans firstSame) reads
  have isBrought : {sym} + ({map} + held) =
      (map :: addresses (.pointer sym) : List Address) + held := by
    rw [addresses, coe_cons, coe_cons, Multiset.coe_nil]
    abel
  have has := secondHolding.covers.has isBrought
  apply Runs.bind
  apply (PersistentArrayMap.runs_dissocWrites blind secondReads.isMap has
    fun _ _ _ _ _ j entry _ isJ => secondHolding.retained_of_reads secondReads
      (List.mem_of_getElem? isJ)).mono
  rintro newMap after ⟨middle, released, done⟩
  have middleHolding : Holding base consumed changed middle ({map} + held) := by
    apply secondHolding.of_since
      (released.since.weaken _ (fun _ => id) fun _ => id) (by simp)
    simp only [counts_add, counts_singleton, PersistentArrayMap.refs_pointer]
    abel
  have middleReads := middleHolding.reads_of_kept (by simp [selfHeld])
    (fun address object now isOld isNow => by
      have isThere := released.since.kept address now isNow id
      rw [isOld, Option.some.injEq] at isThere
      exact isThere.symm) secondReads
  have middleKeys := middleHolding.keys_of_reads middleReads
  cases done with
  | absent _ =>
      exact holds map _ middleHolding
        (Is.of_found released.found ⟨found, rfl, middleKeys⟩)
  | inPlace _ isOne _ =>
      exact absurd isOne (middleHolding.count_ne_one middleReads (by simp))
  | copied _ writes =>
      have isMapOnly : {map} + held = ([map] : List Address) + held := by
        rw [coe_cons, Multiset.coe_nil, add_zero]
      obtain ⟨isHolding, isMap⟩ := (middleHolding.congr isMapOnly).of_writes
        writes
        fun entry isEntry =>
          middleKeys entry ((AssocList.dissoc_sublist _ _).subset isEntry)
      exact holds middle.next after isHolding isMap

end Maps

/-! ### Exchanges -/

/-- A map is put into a field of a namespace, and the old one is held. -/
theorem of_store
    {ns : Namespace}
    {newMap : Address}
    {field : Field}
    {after : MapHeap}
    (holding : Holding base consumed (fun _ => False) base ({newMap} + held))
    (isNs : base.object? self = some ns.object)
    (isMap : Is IsMap base newMap)
    (stored : after.object? self = some (ns.set newMap field).object)
    (others : ∀ other, other ≠ self → after.object? other = base.object? other)
    (effect : Effect base after (own (ns.get field) - own newMap) (· = self)) :
    Holding base consumed (· = self) after ({ns.get field} + held) where
  effect := by
    apply (holding.effect.trans effect).weaken
    · rw [counts_add, counts_add, counts_singleton, counts_singleton]
      abel
    · rintro address _ (never | isSelf)
      · exact never.elim
      · exact isSelf
  covers := by
    intro address
    have := holding.covers address
    rw [effect.excess, Pi.sub_apply]
    simp only [counts_add, counts_singleton, Pi.add_apply] at *
    omega
  typed := by
    have mapKept {address : Address} (isMap : Is IsMap base address) :
        Is IsMap after address := by
      refine ⟨isMap.1.trans_le effect.next_le, ?_⟩
      intro object found
      by_cases isSelf : address = self
      · obtain ⟨map, never, _⟩ := isMap.2 ns.object (by rw [isSelf, isNs])
        cases never
      · exact isMap.2 object (by rw [← others address isSelf, found])
    constructor
    intro address object other found isOther otherField
    by_cases isSelf : address = self
    · rw [isSelf, stored, Option.some.injEq] at found
      rw [← found, ofObject_object, Option.some.injEq] at isOther
      rw [← isOther]
      rw [Namespace.get_set]
      split
      · exact mapKept isMap
      · exact mapKept
          (holding.typed.fields self ns.object ns isNs rfl otherField)
    · rw [others address isSelf] at found
      exact mapKept
        (holding.typed.fields address object other found isOther otherField)
  namespaces := by
    rintro address rfl
    exact ⟨⟨ns.object, isNs, ns, rfl⟩, Is.of_found stored ⟨_, rfl⟩⟩

/-- One of the two maps is given up, and the other one is in the field. -/
theorem runs_exchange
    {field : Field}
    {map newMap : Address}
    (holding : Holding base consumed (fun _ => False) base ({newMap} + held))
    (selfHeld : self ∈ held)
    (isNamespace : Is IsNamespace base self)
    (isMap : Is IsMap base newMap)
    {post : Bool → MapHeap → Prop}
    (holds : ∀ replaced changed after,
      Holding base consumed changed after held →
      (replaced = false → changed = fun _ => False) → post replaced after) :
    Runs (exchange field self map newMap) base post := by
  obtain ⟨object, isObject⟩ :=
    holding.covers.present (Multiset.mem_add.mpr (Or.inr selfHeld))
  obtain ⟨ns, isNs⟩ := isNamespace.2 object isObject
  rw [eq_of_ofObject isNs] at isObject
  unfold exchange compareExchange
  apply Runs.bind
  apply Runs.bind
  apply runs_loadNamespace isObject
  by_cases isCurrent : ns.get field = map
  · subst isCurrent
    rw [if_pos rfl]
    apply Runs.bind
    apply PersistentArrayMap.runs_store (Since.refl base) isObject
    intro middle stored others since
    have effect :
        Effect base middle (own (ns.get field) - own newMap) (· = self) := by
      apply since.effect.weaken
      · rw [Namespace.owns_set]
        abel
      · rintro address _ (never | isSelf)
        · exact never.elim
        · exact isSelf
    have middleHolding := holding.of_store isObject isMap stored others effect
    apply Runs.pure
    apply Runs.bind
    apply middleHolding.runs_release
    intro after afterHolding
    exact Runs.pure (holds true _ after afterHolding (by simp))
  · rw [if_neg isCurrent]
    apply Runs.pure
    apply Runs.bind
    apply holding.runs_release
    intro after afterHolding
    exact Runs.pure (holds false _ after afterHolding fun _ => rfl)

/-! ### Vars -/

section Vars

variable {equals : MapHeap → RTValue → RTValue → Bool}

/-- The check consumes nothing. -/
theorem runs_isInternedMapping
    {var : RTValue}
    (holding :
      Holding base consumed changed heap
      ({self} + {sym} + valueRefs var + held))
    {post : Bool → MapHeap → Prop}
    (holds : ∀ after, Holding base consumed changed after held →
      post (isInterned equals heap self sym var) after) :
    Runs (isInternedMapping equals self sym var) heap post := by
  unfold isInternedMapping
  apply Runs.bind
  refine ⟨_, heap, rfl, ?_⟩
  rw [add_assoc, add_assoc] at holding
  apply Runs.bind
  apply holding.runs_release
  intro first firstHolding
  apply Runs.bind
  apply firstHolding.runs_release
  intro second secondHolding
  apply Runs.bind
  apply secondHolding.runs_releaseValue
  intro after afterHolding
  exact Runs.pure (holds after afterHolding)

/-- A string comes and goes. -/
theorem runs_createString
    (holding : Holding base consumed changed heap held)
    {β : Type}
    {next : Code β}
    {post : β → MapHeap → Prop}
    (holds : ∀ after, Holding base consumed changed after held →
      Runs next after post) :
    Runs (do
      let s ← createString
      release s
      next) heap post := by
  have nothing : held = ([] : List Address) + held := by
    rw [Multiset.coe_nil, zero_add]
  apply Runs.bind
  apply (holding.congr nothing).runs_allocate (by decide)
  intro middle _ middleHolding
  apply Runs.bind
  exact middleHolding.runs_release holds

/-- Whether a value is a Var does not matter to the references. -/
theorem runs_isVar
    (compare : MapHeap → RTValue → RTValue → Bool)
    {value : RTValue}
    (present : ∀ address ∈ addresses value, ∃ object,
      heap.object? address = some object)
    {post : Bool → MapHeap → Prop}
    (holds : ∀ result,
      (result = false → ∀ self sym,
        isInterned compare heap self sym value = false) →
      post result heap) :
    Runs (isVar value) heap post := by
  cases value with
  | word bits => exact Runs.pure (holds false fun _ _ _ => rfl)
  | pointer address =>
      obtain ⟨object, found⟩ := present address List.mem_cons_self
      apply Runs.bind
      apply Runs.load found
      split
      · exact Runs.pure (holds true (by simp))
      · next notVar =>
          apply Runs.pure
          apply holds false
          intro _ self sym
          simp only [isInterned, found]
          exact isInternedObject_eq_false notVar

end Vars

/-! ### Comparisons -/

section Comparisons

variable {equals : MapHeap → RTValue → RTValue → Bool}

/-- Comparing changes nothing. -/
theorem runs_equalValues
    {first second : RTValue}
    {post : Bool → MapHeap → Prop}
    (holds : post (equals heap first second) heap) :
    Runs (equalValues equals first second) heap post :=
  ⟨_, heap, rfl, holds⟩

/-- Nothing is written, so values that are still there compare as before. -/
theorem equals_kept
    (framed : Framed equals)
    (nonneg : ∀ address, 0 ≤ base.excess address)
    (holding : Holding base consumed (fun _ => False) heap held)
    {first second : RTValue}
    (alive : ∀ address ∈ addresses first ++ addresses second,
      (∃ object, base.object? address = some object) ∧
        ∃ object, heap.object? address = some object) :
    equals heap first second = equals base first second := by
  apply framed.frame
  intro address pinned
  apply pinned.object_kept holding.effect nonneg holding.covers.nonneg fun _ =>
    False.elim
  intro target positive
  refine ⟨id, alive target ?_⟩
  rw [← List.count_pos_iff, List.count_append]
  rw [Pi.add_apply, refs, refs, owns, owns] at positive
  omega

/-- A map that was full is full. -/
theorem full_kept
    (framed : Framed equals)
    (nonneg : ∀ address, 0 ≤ base.excess address)
    (holding : Holding base consumed (fun _ => False) heap held)
    {field : Field}
    {map : Address}
    {found : ArrayMap}
    (reads : Reads base field self map found)
    (selfHeld : self ∈ held)
    (symHeld : sym ∈ held)
    (symBase : ∃ object, base.object? sym = some object) :
    Full equals heap (.pointer sym) found ↔
      Full equals base (.pointer sym) found := by
  have agree (entry : RTValue × RTValue) (isEntry : entry ∈ found.entries) :
      equals heap (.pointer sym) entry.1 = equals base (.pointer sym)
        entry.1 := by
    apply holding.equals_kept framed nonneg
    intro address isIn
    rcases List.mem_append.mp isIn with isSym | isKey
    · rw [List.mem_singleton.mp isSym]
      exact ⟨symBase, holding.covers.present symHeld⟩
    · have isReference : address ∈ Referencing.references (Object.map found) :=
        List.mem_append_left _
          (PersistentArrayMap.key_mem_entryAddresses isEntry isKey)
      exact ⟨Heap.object_of_reference nonneg reads.isMap isReference,
        Heap.object_of_reference holding.covers.nonneg
          (holding.reads_kept selfHeld reads).isMap isReference⟩
  unfold Full AssocList.indexOf
  rw [List.findIdx?_eq_none_iff, List.findIdx?_eq_none_iff]
  apply and_congr_left'
  exact forall₂_congr fun entry isEntry => by rw [agree entry isEntry]

/-- A Var that was interned is interned. -/
theorem isInterned_kept
    (framed : Framed equals)
    (nonneg : ∀ address, 0 ≤ base.excess address)
    (holding : Holding base consumed (fun _ => False) heap held)
    {value : RTValue}
    (valueBase : ∀ address ∈ addresses value, ∃ object,
      base.object? address = some object)
    (valueHeld : ∀ address ∈ addresses value, address ∈ held)
    (symHeld : sym ∈ held)
    (symBase : ∃ object, base.object? sym = some object) :
    isInterned equals heap self sym value = isInterned equals base self sym
      value := by
  cases value with
  | word bits => rfl
  | pointer address =>
      obtain ⟨object, isObject⟩ := valueBase address List.mem_cons_self
      obtain ⟨now, isNow⟩ :=
        holding.covers.present (valueHeld address List.mem_cons_self)
      rw [holding.effect.object_eq isObject id isNow] at isNow
      simp only [isInterned, isObject, isNow]
      cases object with
      | map map => rfl
      | other content references =>
          cases references with
          | nil => rfl
          | cons varSym rest =>
              simp only [isInternedObject]
              congr 1
              apply holding.equals_kept framed nonneg
              intro target isIn
              rcases List.mem_append.mp isIn with isVarSym | isSym
              · rw [List.mem_singleton.mp isVarSym]
                have isReference : varSym ∈
                    Referencing.references
                      (Object.other content (varSym :: rest)) :=
                  List.mem_cons_self
                exact ⟨Heap.object_of_reference nonneg isObject isReference,
                  Heap.object_of_reference holding.covers.nonneg isNow
                    isReference⟩
              · rw [List.mem_singleton.mp isSym]
                exact ⟨symBase, holding.covers.present symHeld⟩

/-- The old value is replaced unless it is a Var that the namespace has
interned. -/
theorem runs_checkReplacement
    (framed : Framed equals)
    (nonneg : ∀ address, 0 ≤ base.excess address)
    {old neu : RTValue}
    (holding : Holding base consumed (fun _ => False) heap
      ({self} + {sym} + valueRefs old + valueRefs neu + held))
    (oldBase : ∀ address ∈ addresses old, ∃ object,
      base.object? address = some object)
    (symBase : ∃ object, base.object? sym = some object)
    {post : Bool → MapHeap → Prop}
    (holds : ∀ after, Holding base consumed (fun _ => False) after held →
      post (!isInterned equals base self sym old) after) :
    Runs (checkReplacement equals self sym old neu) heap post := by
  have oldHeld (address : Address) (isIn : address ∈ addresses old) :
      address ∈ valueRefs old := by
    rwa [valueRefs, Multiset.mem_coe]
  unfold checkReplacement
  apply Runs.bind
  apply runs_isVar equals
  · intro address isIn
    apply holding.covers.present
    simp [oldHeld address isIn]
  intro result notVar
  cases result with
  | true =>
      apply holding.runs_createString
      intro first firstHolding
      apply Runs.bind
      have neuFirst : {self} + {sym} + valueRefs old + valueRefs neu + held =
          valueRefs neu + ({self} + {sym} + valueRefs old + held) := by
        abel
      apply (firstHolding.congr neuFirst).runs_releaseValue
      intro second secondHolding
      apply Runs.bind
      apply secondHolding.runs_isInternedMapping
      intro after afterHolding
      apply Runs.pure
      rw [secondHolding.isInterned_kept framed nonneg oldBase
        (fun address isIn => by simp [oldHeld address isIn]) (by simp) symBase]
      exact holds after afterHolding
  | false =>
      have noVar := notVar rfl self sym
      rw [holding.isInterned_kept framed nonneg oldBase
        (fun address isIn => by simp [oldHeld address isIn]) (by simp)
        symBase] at noVar
      rw [noVar] at holds
      have ordered : {self} + {sym} + valueRefs old + valueRefs neu + held =
          valueRefs old + ({sym} + ({self} + (valueRefs neu + held))) := by
        abel
      apply Runs.bind
      apply (holding.congr ordered).runs_releaseValue
      intro first firstHolding
      apply Runs.bind
      apply firstHolding.runs_release
      intro second secondHolding
      apply Runs.bind
      apply secondHolding.runs_release
      intro third thirdHolding
      apply Runs.bind
      apply thirdHolding.runs_releaseValue
      intro after afterHolding
      exact Runs.pure (holds after afterHolding)

end Comparisons

end Holding

end NamespaceCalls
end Runtime
end ClojureRt
