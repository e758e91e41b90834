import ClojureRt.CompilerState.Registry

/-!
# Storing classes

`storeInternalClasses` goes through phases: it creates the classes, links them
to their parents, registers them, links the protocols that they implement and
compares them with these protocols.  Where something is thrown, the computation
ends in an error and the heap stays as it is at that point, so that what is not
released by a `catch` is lost.

Iterating over the local map comes to the classes in the order of the
descriptions, which are the values of an unordered map themselves.
-/

namespace ClojureRt
namespace CompilerState

open Codegen RefCount RefCount.Program

/-- `operator==` of type sets, which does not look at constants. -/
def sameTypes (first second : ObjectTypeSet) : Bool :=
  decide (first.internal = second.internal) && first.isBoxed ==
    second.isBoxed && first.allTypes == second.allTypes

/-- What `buildClasses` returns.  The descriptions are named by the keys of one
map. -/
structure ClassDescriptions where
  descriptions : List ClassDescription
  distinct : (descriptions.map ClassDescription.name).Nodup

/-- `localMap`, the new classes by their names. -/
abbrev LocalMap := List (String × Nat)

/-- A throw, which leaves the heap as it is. -/
def throwInternalInconsistencyException {Result : Type} (message : String) :
    Code (Except String Result) :=
  return .error message

/-! ## Phase 1: creating the classes -/

/-- A class with one reference to it and without parents. -/
def hull (desc : ClassDescription) : Class where
  registerId := desc.type.getD 0
  superclasses := []
  implementedProtocols := []
  compilerExtension := some desc
  extendsClass := none

/-- The first phase makes a class for each description. -/
def createHulls : List ClassDescription → LocalMap → Code LocalMap
  | [], localMap => return localMap
  | desc :: descriptions, localMap => do
      let c ← allocate (hull desc)
      createHulls descriptions (insert desc.name c localMap)

/-! ## Phase 2: linking the parents -/

/-- A parent is looked for among the new classes, then among the registered
classes, then among the protocols. -/
def findParent (state : ThreadsafeCompilerState) (localMap : LocalMap)
    (name : String) :
    Code (Option Nat) :=
  match find name localMap with
  | some pc => do
      retain pc
      return some pc
  | none => do
      match ← state.classRegistry.getCurrent name with
      | some pc => return some pc
      | none => state.protocolRegistry.getCurrent name

/-- The first parent is what the description extends, which takes one more
reference. -/
def linkExtends (c pc : Nat) : Bool → Code Unit
  | true => do
      let self ← load c
      store c { self with extendsClass := some pc }
      retain pc
  | false => return ()

/-- The list of the parents of a class, up to the first that is not found. -/
def linkParents (state : ThreadsafeCompilerState) (localMap : LocalMap)
    (c : Nat) :
    Bool → List String → Code (Except String (List Nat))
  | _, [] => return .ok []
  | isFirst, parentName :: parentNames => do
      match ← findParent state localMap parentName with
      | none =>
          throwInternalInconsistencyException ("Parent class/protocol not found: " ++ parentName)
      | some pc => do
          linkExtends c pc isFirst
          match ← linkParents state localMap c false parentNames with
          | .error message => return .error message
          | .ok parents => return .ok (pc :: parents)

/-- A class with parents gets the list of them. -/
def linkClass (state : ThreadsafeCompilerState) (localMap : LocalMap)
    (c : Nat) :
    Code (Except String Unit) := do
  match (← load c).compilerExtension with
  | none => undefined
  | some desc =>
      if desc.parentName ≠ "" ∨ desc.parentNames ≠ [] then do
        match ← linkParents state localMap c true desc.parentNames with
        | .error message => return .error message
        | .ok list => do
            let self ← load c
            store c { self with superclasses := list }
            return .ok ()
      else return .ok ()

/-- The second phase links every class, up to the first that throws. -/
def linkInheritance (state : ThreadsafeCompilerState) (localMap : LocalMap) :
    LocalMap → Code (Except String Unit)
  | [] => return .ok ()
  | (_, c) :: rest => do
      match ← linkClass state localMap c with
      | .error message => return .error message
      | .ok () => linkInheritance state localMap rest

/-- Releases the objects one after the other. -/
def releaseEach : List Nat → Code Unit
  | [] => return ()
  | address :: rest => do
      release address
      releaseEach rest

/-! ## Phase 3: registering the classes -/

/-- `c->registerId = id` -/
def setRegisterId (c : Nat) (id : Int) : Code Unit := do
  let self ← load c
  store c { self with registerId := id }

/-- The class is registered under its number, or under the next free one. -/
def registerId (registry : ThreadsafeRegistry) (c : Nat) : Option Int →
    Code ThreadsafeRegistry
  | some id => do
      setRegisterId c id
      retain c
      let (_, registry) ← registry.registerObject c id
      return registry
  | none => do
      retain c
      let (id, registry) ← registry.registerObject c (-1)
      setRegisterId c id
      return registry

/-- A class is registered by its name and by its number, with a reference for
the name that the registration takes. -/
def registerClass (registry : ThreadsafeRegistry)
    (c : Nat) : Code ThreadsafeRegistry := do
  match (← load c).compilerExtension with
  | none => undefined
  | some desc => do
      retain c
      let registry ← registry.registerName desc.name c
      let registry ← registerId registry c desc.type
      release c
      return registry

/-- The third phase registers every class. -/
def registerClasses : ThreadsafeRegistry → LocalMap → Code ThreadsafeRegistry
  | registry, [] => return registry
  | registry, (_, c) :: rest => do
      let registry ← registerClass registry c
      registerClasses registry rest

/-! ## Phase 4: linking the protocols -/

/-- The implemented protocols that are registered. -/
def findProtocols (protocolRegistry : ThreadsafeRegistry) :
    List (String × Methods) → Code (List Nat)
  | [] => return []
  | (protoName, _) :: rest => do
      match ← protocolRegistry.getCurrent protoName with
      | none => findProtocols protocolRegistry rest
      | some proto => do
          let protos ← findProtocols protocolRegistry rest
          return proto :: protos

/-- The fourth phase links every class to the protocols that it implements. -/
def linkProtocols (protocolRegistry : ThreadsafeRegistry) : LocalMap → Code Unit
  | [] => return ()
  | (_, c) :: rest => do
      match (← load c).compilerExtension with
      | none => undefined
      | some desc => do
          let classImpls ← findProtocols protocolRegistry desc.implements
          let self ← load c
          store c
            { self with
              implementedProtocols :=
                if classImpls.isEmpty then self.implementedProtocols
                else classImpls }
          linkProtocols protocolRegistry rest

/-! ## Comparing classes with their protocols -/

/-- `requiredMethods[name].push_back(fn)` -/
def requireMethod (name : String) (fn : IntrinsicDescription)
    (requiredMethods : Methods) :
    Methods :=
  insert name ((find name requiredMethods).getD [] ++ [fn]) requiredMethods

/-- The methods of a protocol are added to those that are required. -/
def requireMethods (instanceFns requiredMethods : Methods) : Methods :=
  instanceFns.foldl (fun required method =>
    method.2.foldl (fun required fn => requireMethod method.1 fn required)
      required)
    requiredMethods

/-- `Ptr_retain` for each address. -/
def retainEach : List Nat → Code Unit
  | [] => return ()
  | address :: rest => do
      retain address
      retainEach rest

/-- The methods of the protocols in a queue and of their parents, without those
of the protocols that were visited before.  The last one in the queue comes
first here. -/
def collectMethods : Nat → List Nat → List Nat → Methods → Code
    (List Nat × Methods)
  | _, [], visited, requiredMethods => return (visited, requiredMethods)
  | 0, _ :: _, _, _ => undefined
  | fuel + 1, curr :: queue, visited, requiredMethods =>
      if curr ∈ visited then do
        release curr
        collectMethods fuel queue visited requiredMethods
      else do
        let self ← load curr
        match self.compilerExtension with
        | none => collectMethods fuel queue (curr :: visited) requiredMethods
        | some desc => do
            retainEach self.superclasses
            collectMethods fuel (self.superclasses.reverse ++ queue)
              (curr :: visited)
              (requireMethods desc.instanceFns requiredMethods)

/-- More than there are parents in the heap. -/
def enoughFuel (heap : ClassHeap) : Nat :=
  1 + ∑ address ∈ Finset.range heap.next, (heap.referencesAt address).length

/-- The arguments of an implementation are those of the method.  What stands for
the object itself may differ. -/
def signatureMatches (protoFn implFn : IntrinsicDescription) : Bool :=
  implFn.argTypes.length == protoFn.argTypes.length &&
    (protoFn.argTypes.zip implFn.argTypes).zipIdx.all fun entry =>
      (entry.2 == 0 && protoFn.isInstance && implFn.isInstance) ||
        sameTypes entry.1.1 ObjectTypeSet.dynamicType || sameTypes entry.1.1
          entry.1.2

/-- Every method that a protocol requires is implemented. -/
def checkRequired (desc : ClassDescription) (protoName : String)
    (requiredMethods : Methods) :
    Except String Unit :=
  requiredMethods.forM fun (methodName, protoFns) => do
    let allImpls := desc.implements.flatMap fun methods =>
      (find methodName methods.2).getD []
    if allImpls.isEmpty then
      throw ("Class " ++ desc.name ++ " is missing implementation of method " ++ methodName ++
        " from protocol " ++ protoName)
    protoFns.forM fun protoFn =>
      if allImpls.any (signatureMatches protoFn) then pure ()
      else
        throw ("Class " ++ desc.name ++ " missing arity " ++ toString protoFn.argTypes.length ++
          " for method " ++ methodName ++ " of protocol " ++ protoName)

/-- No method is implemented that the protocol does not have. -/
def checkExtra (desc : ClassDescription) (protoName : String)
    (implMethods requiredMethods : Methods) : Except String Unit :=
  implMethods.forM fun (methodName, _) =>
    if (find methodName requiredMethods).isNone then
      throw ("Class " ++ desc.name ++ " implements extra method " ++ methodName ++
        " not found in protocol " ++ protoName ++ " or its parents")
    else pure ()

/-- No method of the class has the name and the arity of one of the protocol. -/
def checkConflicts (desc : ClassDescription) (protoName : String)
    (implMethods : Methods) :
    Except String Unit :=
  implMethods.forM fun (methodName, implFns) =>
    implFns.forM fun protoFn =>
      ((find methodName desc.instanceFns).getD []).forM fun regFn =>
        if regFn.argTypes.length = protoFn.argTypes.length then
          throw ("Class " ++ desc.name ++ " has regular method " ++ methodName ++
            " that conflicts with protocol " ++ protoName ++
            " implementation of the same arity (" ++ toString protoFn.argTypes.length ++ ")")
        else pure ()

/-- The checks of what a class implements against what a protocol requires. -/
def checkImplementation (desc : ClassDescription) (protoName : String)
    (implMethods requiredMethods : Methods) : Except String Unit := do
  checkRequired desc protoName requiredMethods
  checkExtra desc protoName implMethods requiredMethods
  checkConflicts desc protoName implMethods

/-- Whether something is thrown or not, the protocols that were visited are
released. -/
def validateProtocol (protocolRegistry : ThreadsafeRegistry)
    (desc : ClassDescription)
    (protoName : String) (implMethods : Methods) : Code (Except String Unit) :=
      do
  match ← protocolRegistry.getCurrent protoName with
  | none => return .ok ()
  | some proto => do
      let (visited, requiredMethods) ← fun heap =>
        collectMethods (enoughFuel heap) [proto] [] [] heap
      releaseEach visited
      return checkImplementation desc protoName implMethods requiredMethods

/-- The checks for each protocol of a description that is registered. -/
def validateProtocols (protocolRegistry : ThreadsafeRegistry)
    (desc : ClassDescription) :
    List (String × Methods) → Code (Except String Unit)
  | [] => return .ok ()
  | (protoName, implMethods) :: rest => do
      match ← validateProtocol protocolRegistry desc protoName implMethods with
      | .error message => return .error message
      | .ok () => validateProtocols protocolRegistry desc rest

/-- The fifth phase checks every class, up to the first that throws. -/
def validateProtocolImplementations (protocolRegistry : ThreadsafeRegistry) :
    List Nat → Code (Except String Unit)
  | [] => return .ok ()
  | c :: classes => do
      match (← load c).compilerExtension with
      | none => validateProtocolImplementations protocolRegistry classes
      | some desc => do
          match ← validateProtocols protocolRegistry desc desc.implements with
          | .error message => return .error message
          | .ok () => validateProtocolImplementations protocolRegistry classes

/-! ## All phases -/

/-- `storeInternalClasses`, given what `buildClasses` came to. -/
def storeInternalClasses (state : ThreadsafeCompilerState) :
    Except String ClassDescriptions →
      Code (Except String Unit × ThreadsafeCompilerState)
  | .error message => return (.error message, state)
  | .ok built => do
      let localMap ← createHulls built.descriptions []
      match ← linkInheritance state localMap localMap with
      | .error message => do
          releaseEach (localMap.map Prod.snd)
          return (.error message, state)
      | .ok () => do
          let classRegistry ← registerClasses state.classRegistry localMap
          linkProtocols state.protocolRegistry localMap
          match ← validateProtocolImplementations state.protocolRegistry
            (localMap.map Prod.snd) with
          | .error message =>
              return (.error message, { state with classRegistry })
          | .ok () =>
              return (.ok (),
                { state with
                  classRegistry
                  globalMethodICEpoch := state.globalMethodICEpoch + 1 })

end CompilerState
end ClojureRt
