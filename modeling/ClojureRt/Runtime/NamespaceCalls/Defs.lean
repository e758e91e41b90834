import ClojureRt.Runtime.PersistentArrayMap.Updates

/-!
# References to namespaces, symbols and Vars

`Namespace_intern`, `Namespace_reference`, `Namespace_unmap`,
`Namespace_addAlias` and `Namespace_removeAlias` with the references that they
retain and release.  The mappings and the aliases of a namespace are array maps,
each behind an atomic pointer.

A step is one access of one call to such a pointer, with the local work up to
its next access; the load behind a successful exchange whose result nobody looks
at is left out.  A map that is released behind an exchange is released at once.

What `Namespace_checkReplacement` compares with `clojure.core` decides nothing,
so only the string for it is kept.  Of strings there is nothing but whether they
are flat.
-/

namespace ClojureRt
namespace Runtime
namespace NamespaceCalls

open RefCount RefCount.Program
open ClojureRt.Runtime.PersistentArrayMap
  (Address RTValue ArrayMap Object MapHeap Code addresses loadMap retainValue
    releaseValue)

/-! ## Objects -/

/-- An object that is no map. -/
inductive Kind
  | symbolType (qualified : Bool) (text : Nat)
  | namespaceType
  | varType (ns : Option Address)
  | stringType (isFlat : Bool)
  | otherType (content : Nat)
  deriving DecidableEq

/-- The content of the object. -/
def Kind.content : Kind → Nat
  | .symbolType false text => 8 * text
  | .symbolType true text => 8 * text + 1
  | .namespaceType => 2
  | .varType (some ns) => 8 * ns + 3
  | .varType none => 4
  | .stringType false => 5
  | .stringType true => 13
  | .otherType content => 8 * content + 6

/-- The object with a content. -/
def Kind.ofContent (content : Nat) : Kind :=
  match content % 8 with
  | 0 => .symbolType false (content / 8)
  | 1 => .symbolType true (content / 8)
  | 2 => .namespaceType
  | 3 => .varType (some (content / 8))
  | 4 => .varType none
  | 5 => .stringType (decide (content / 8 ≠ 0))
  | _ => .otherType (content / 8)

theorem Kind.ofContent_content
    (kind : Kind) : Kind.ofContent kind.content = kind := by
  cases kind with
  | symbolType qualified text =>
      cases qualified
      · simp [content, ofContent]
      · simp [content, ofContent, Nat.add_mod, Nat.add_div]
  | namespaceType => rfl
  | varType ns =>
      cases ns
      · rfl
      · simp [content, ofContent, Nat.add_mod, Nat.add_div]
  | stringType isFlat => cases isFlat <;> rfl
  | otherType => simp [content, ofContent, Nat.add_mod, Nat.add_div]

/-- An object that is no map, with what it refers to. -/
def Kind.object (kind : Kind) (references : List Address) : Object :=
  .other kind.content references

/-- The kind of an object, if it is no map. -/
def kindOf : Object → Option Kind
  | .map _ => none
  | .other content _ => some (Kind.ofContent content)

@[simp]
theorem kindOf_object (kind : Kind) (references : List Address) :
    kindOf (kind.object references) = some kind :=
  congrArg some kind.ofContent_content

/-- `Namespace` -/
structure Namespace where
  name : Address
  mappings : Address
  aliases : Address
  deriving DecidableEq

/-- The two maps of a namespace. -/
inductive Field
  | mappings
  | aliases
  deriving DecidableEq

namespace Namespace

/-- The map in a field. -/
def get (ns : Namespace) : Field → Address
  | .mappings => ns.mappings
  | .aliases => ns.aliases

/-- The namespace with another map in a field. -/
def set (ns : Namespace) (new : Address) : Field → Namespace
  | .mappings => { ns with mappings := new }
  | .aliases => { ns with aliases := new }

/-- The namespace as an object on the heap. -/
def object (ns : Namespace) : Object :=
  Kind.namespaceType.object [ns.name, ns.mappings, ns.aliases]

/-- The namespace that an object is. -/
def ofObject : Object → Option Namespace
  | .other content [name, mappings, aliases] =>
      if content = Kind.namespaceType.content then some ⟨name, mappings,
        aliases⟩ else none
  | _ => none

end Namespace

/-- What the operations throw. -/
inductive Exception
  | illegalArgument (message : String)
  | illegalState (message : String)
  | alreadyRefers (sym : Address) (o : RTValue) (self : Address)
  | ofMap (exception : PersistentArrayMap.Exception)
  deriving DecidableEq

/-! ## Access -/

/-- The namespace at an address. -/
def loadNamespace (self : Address) : Code Namespace := do
  let object ← load self
  match Namespace.ofObject object with
  | some ns => pure ns
  | none => undefined

/-- Whether a symbol has a namespace. -/
def isQualified (sym : Address) : Code Bool := do
  let object ← load sym
  match kindOf object with
  | some (.symbolType qualified _) => pure qualified
  | _ => undefined

/-- `atomic_load_explicit` -/
def loadField (field : Field) (self : Address) : Code Address := do
  let ns ← loadNamespace self
  pure (ns.get field)

/-- `atomic_compare_exchange_strong_explicit` -/
def compareExchange (field : Field) (self expected desired : Address) :
    Code Bool := do
  let ns ← loadNamespace self
  if ns.get field = expected then do
    store self (ns.set desired field).object
    pure true
  else
    pure false

/-- The exchange of a map, after which the other one is given up. -/
def exchange (field : Field) (self map newMap : Address) : Code Bool := do
  let replaced ← compareExchange field self map newMap
  release (if replaced then map else newMap)
  pure replaced

/-- `String_create` -/
def createString : Code Address :=
  allocate ((Kind.stringType true).object [])

/-- `toString` -/
def toString (value : RTValue) : Code Address := do
  let string ← allocate ((Kind.stringType false).object [])
  releaseValue value
  pure string

/-- `String_compactify` -/
def compactify (self : Address) : Code Address := do
  let object ← load self
  if kindOf object = some (.stringType false) then do
    let out ← createString
    release self
    pure out
  else
    pure self

/-- `Var_create_interned` -/
def varCreateInterned (ns sym : Address) : Code Address := do
  let self ← allocate ((Kind.varType (some ns)).object [sym])
  release ns
  pure self

/-- A Var of one's own, unless there is one. -/
def ownVar (self sym : Address) : Option Address → Code Address
  | some v => pure v
  | none => do
      retain self
      retain sym
      varCreateInterned self sym

/-- `if (v != NULL) Ptr_release(v)` -/
def releaseVar : Option Address → Code Unit
  | some v => release v
  | none => pure ()

/-! ## Calls in progress -/

/-- A call with its arguments.  `Namespace_addAlias` accepts NULL. -/
inductive Call
  | intern (self sym : Address)
  | reference (self sym : Address) (val : RTValue)
  | unmap (self sym : Address)
  | addAlias (self : Address) (sym ns : Option Address)
  | removeAlias (self sym : Address)
  deriving DecidableEq

/-- Where a call stands, and what it holds. -/
inductive Activity
  | called (call : Call)
  -- Namespace_intern
  | internLoad (self sym : Address) (v : Option Address)
  | internExchange (self sym v map newMap : Address)
  | replaceReload (self sym v : Address) (o : RTValue)
  | replaceExchange (self sym v : Address) (o : RTValue) (map newMap : Address)
  -- Namespace_reference
  | referenceLoad (self sym : Address) (val : RTValue)
  | referenceExchange (self sym : Address) (val : RTValue)
      (map newMap : Address)
  -- Namespace_addAlias
  | addAliasLoad (self sym ns : Address)
  | addAliasExchange (self sym ns map newMap : Address)
  -- Namespace_unmap and Namespace_removeAlias
  | removeLoad (field : Field) (self sym : Address)
  | removeExchange (field : Field) (self sym map newMap : Address)
  deriving DecidableEq

/-- What a step leads to. -/
inductive Progress
  | goto (activity : Activity)
  | returns (value : RTValue)
  | returnsVoid
  | throws (exception : Exception)
  deriving DecidableEq

/-! ## The functions -/

section Functions

variable (equals : MapHeap → RTValue → RTValue → Bool)

/-- `equals` -/
def equalValues (first second : RTValue) : Code Bool :=
  fun heap => some (equals heap first second, heap)

/-- Whether an object is a Var of the namespace with an equal symbol. -/
def isInternedObject (heap : MapHeap) (self sym : Address) : Object → Bool
  | .other content (varSym :: _) =>
      Kind.ofContent content == .varType (some self) && equals heap
        (.pointer varSym) (.pointer sym)
  | _ => false

/-- Whether a value is such a Var. -/
def isInterned (heap : MapHeap) (self sym : Address) : RTValue → Bool
  | .word _ => false
  | .pointer address =>
      match heap.object? address with
      | some object => isInternedObject equals heap self sym object
      | none => false

/-- `Namespace_isInternedMapping` -/
def isInternedMapping (self sym : Address) (var : RTValue) : Code Bool := do
  let res ← (fun heap => some (isInterned equals heap self sym var, heap) :
    Code Bool)
  release self
  release sym
  releaseValue var
  pure res

/-- The object type is that of Vars. -/
def isVar : RTValue → Code Bool
  | .word _ => pure false
  | .pointer address => do
      let object ← load address
      match kindOf object with
      | some (.varType _) => pure true
      | _ => pure false

/-- `Namespace_checkReplacement` -/
def checkReplacement (self sym : Address) (old neu : RTValue) : Code Bool := do
  if ← isVar old then do
    let s ← createString
    release s
    releaseValue neu
    let interned ← isInternedMapping equals self sym old
    pure (!interned)
  else do
    releaseValue old
    release sym
    release self
    releaseValue neu
    pure true

/-- The map that is loaded, and what it has for the symbol. -/
structure Lookup where
  map : Address
  value : RTValue

/-- What a field of a namespace has for a symbol. -/
def lookup (field : Field) (self sym : Address) : Code Lookup := do
  let map ← loadField field self
  retain map
  retain sym
  let value ← PersistentArrayMap.get equals map (.pointer sym)
  pure ⟨map, value⟩

/-- The map with one more entry, for an exchange. -/
def extend
    (map sym : Address)
    (value : RTValue)
    (next : Address → Activity) : Code Progress := do
  retain map
  retain sym
  retainValue value
  match ← PersistentArrayMap.assoc equals map (.pointer sym) value with
  | .ok newMap => pure (.goto (next newMap))
  | .error exception => pure (.throws (.ofMap exception))

/-- `Namespace_intern` after it has loaded the mappings. -/
def internLoad (self sym : Address) (v : Option Address) : Code Progress := do
  let o ← lookup equals .mappings self sym
  if o.value = .boxNil then do
    let own ← ownVar self sym v
    extend equals o.map sym (.pointer own) (.internExchange self sym own o.map)
  else do
    retain self
    retain sym
    retainValue o.value
    if ← isInternedMapping equals self sym o.value then do
      release self
      release sym
      releaseVar v
      pure (.returns o.value)
    else do
      let own ← ownVar self sym v
      retain self
      retain sym
      retainValue o.value
      retain own
      if ← checkReplacement equals self sym o.value (.pointer own) then
        extend equals o.map sym (.pointer own)
          (.replaceExchange self sym own o.value o.map)
      else do
        release self
        release sym
        release own
        pure (.returns o.value)

/-- The rest of `Namespace_reference` if the mapping is not to be replaced.  The
message is made, and the arguments and the old value are released twice. -/
def rejectReference (self sym : Address) (val o : RTValue) : Code Progress := do
  retainValue o
  let oStr ← toString o
  retain oStr
  let flatOStr ← compactify oStr
  release flatOStr
  release oStr
  releaseValue o
  releaseValue val
  release sym
  release self
  releaseValue o
  release self
  release sym
  releaseValue val
  pure (.throws (.alreadyRefers sym o self))

/-- `Namespace_reference` after it has loaded the mappings. -/
def referenceLoad (self sym : Address) (val : RTValue) : Code Progress := do
  let o ← lookup equals .mappings self sym
  if o.value = .boxNil then
    extend equals o.map sym val (.referenceExchange self sym val o.map)
  else if ← equalValues equals o.value val then do
    release self
    release sym
    releaseValue val
    pure (.returns o.value)
  else do
    retain self
    retain sym
    retainValue o.value
    retainValue val
    if ← checkReplacement equals self sym o.value val then do
      releaseValue o.value
      extend equals o.map sym val (.referenceExchange self sym val o.map)
    else
      rejectReference self sym val o.value

/-- `Namespace_addAlias` after it has loaded the aliases. -/
def addAliasLoad (self sym ns : Address) : Code Progress := do
  let oldNs ← lookup equals .aliases self sym
  if oldNs.value = .boxNil then
    extend equals oldNs.map sym (.pointer ns)
      (.addAliasExchange self sym ns oldNs.map)
  else do
    let same ← equalValues equals oldNs.value (.pointer ns)
    release sym
    release ns
    release self
    releaseValue oldNs.value
    pure (if same then .returnsVoid else .throws (.illegalState "Alias already exists"))

/-- `Namespace_unmap` or `Namespace_removeAlias` after it has loaded the map. -/
def removeLoad (field : Field) (self sym : Address) : Code Progress := do
  let existing ← lookup equals field self sym
  if existing.value = .boxNil then do
    release self
    release sym
    pure .returnsVoid
  else do
    releaseValue existing.value
    retain existing.map
    retain sym
    let newMap ← PersistentArrayMap.dissoc equals existing.map (.pointer sym)
    pure (.goto (.removeExchange field self sym existing.map newMap))

/-- A symbol with a namespace is refused, and what the call holds is given
up. -/
def refuseQualified
    (sym : Address)
    (giveUp : Code Unit)
    (message : String)
    (next : Activity) : Code Progress := do
  if ← isQualified sym then do
    giveUp
    pure (.throws (.illegalArgument message))
  else
    pure (.goto next)

/-- The checks before the first load. -/
def called : Call → Code Progress
  | .intern self sym =>
      refuseQualified sym (do release self; release sym)
        "Can't intern namespace-qualified symbol" (.internLoad self sym none)
  | .reference self sym val =>
      refuseQualified sym (do release self; release sym; releaseValue val)
        "Can't intern namespace-qualified symbol" (.referenceLoad self sym val)
  | .unmap self sym =>
      refuseQualified sym (do release self; release sym)
        "Can't unmap namespace-qualified symbol" (.removeLoad .mappings self sym)
  | .addAlias self (some sym) (some ns) =>
      refuseQualified sym (do release sym; release ns; release self)
        "Cannot alias namespace-qualified symbol" (.addAliasLoad self sym ns)
  | .addAlias self sym ns => do
      releaseVar sym
      releaseVar ns
      release self
      pure (.throws (.illegalArgument "Null pointer passed"))
  | .removeAlias self sym =>
      refuseQualified sym (do release self; release sym)
        "Cannot alias namespace-qualified symbol" (.removeLoad .aliases self sym)

/-- The next step of a call. -/
def advance : Activity → Code Progress
  | .called call => called call
  | .internLoad self sym v => internLoad equals self sym v
  | .internExchange self sym v map newMap => do
      -- both ways around, the loop loads the mappings again
      let _ ← exchange .mappings self map newMap
      pure (.goto (.internLoad self sym (some v)))
  | .replaceReload self sym v o => do
      let map ← loadField .mappings self
      extend equals map sym (.pointer v) (.replaceExchange self sym v o map)
  | .replaceExchange self sym v o map newMap => do
      if ← exchange .mappings self map newMap then do
        release self
        release sym
        releaseValue o
        pure (.returns (.pointer v))
      else
        pure (.goto (.replaceReload self sym v o))
  | .referenceLoad self sym val => referenceLoad equals self sym val
  | .referenceExchange self sym val map newMap => do
      if ← exchange .mappings self map newMap then do
        release self
        release sym
        pure (.returns val)
      else
        pure (.goto (.referenceLoad self sym val))
  | .addAliasLoad self sym ns => addAliasLoad equals self sym ns
  | .addAliasExchange self sym ns map newMap => do
      if ← exchange .aliases self map newMap then do
        release sym
        release ns
        release self
        pure .returnsVoid
      else
        pure (.goto (.addAliasLoad self sym ns))
  | .removeLoad field self sym => removeLoad equals field self sym
  | .removeExchange field self sym map newMap => do
      if ← exchange field self map newMap then do
        release self
        release sym
        pure .returnsVoid
      else
        pure (.goto (.removeLoad field self sym))

end Functions

end NamespaceCalls
end Runtime
end ClojureRt
