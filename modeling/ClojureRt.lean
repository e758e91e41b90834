import ClojureRt.Lib.TransitionSystem
import ClojureRt.Lib.LinkedList
import ClojureRt.Runtime.ConcurrentHashMap.Refinement
import ClojureRt.Runtime.ConcurrentHashMap.Termination
import ClojureRt.Runtime.Ebr.Defs
import ClojureRt.Runtime.Ebr.Ownership
import ClojureRt.Runtime.Ebr.Safety
import ClojureRt.Runtime.Ebr.Accounting
import ClojureRt.Frontend.Ast
import ClojureRt.Frontend.FreshVars
import ClojureRt.Frontend.MemoryManagement
import ClojureRt.Frontend.Assertions
import ClojureRt.Frontend.ClosedOvers
import ClojureRt.Runtime.Function
import ClojureRt.Codegen.CallingConvention
import ClojureRt.Codegen.FnNode
import ClojureRt.Runtime.Numbers
import ClojureRt.Runtime.Sharing
import ClojureRt.Codegen.ObjectTypeSet
import ClojureRt.Codegen.Intrinsics
import ClojureRt.Codegen.StaticCall
import ClojureRt.Codegen.Folding
import ClojureRt.Codegen.IfNode
import ClojureRt.Lib.TokenTrace
import ClojureRt.Frontend.Scoping
import ClojureRt.Frontend.TokenSemantics
import ClojureRt.Frontend.Balance
import ClojureRt.Frontend.Linearity
import ClojureRt.Frontend.Paths
import ClojureRt.Bridge.InlineCache
import ClojureRt.Lib.RefCount
import ClojureRt.Runtime.Vector.Defs
import ClojureRt.Runtime.Vector.Operations
import ClojureRt.Runtime.Vector.Sealing
import ClojureRt.Runtime.Vector.Tries
import ClojureRt.Runtime.Vector.Rules
import ClojureRt.Runtime.Vector.PushTail
import ClojureRt.Lib.AssocList
import ClojureRt.Runtime.ArrayMap.Entries
import ClojureRt.Runtime.Namespace
import ClojureRt.Runtime.Keyword
import ClojureRt.Runtime.String.Defs
import ClojureRt.Runtime.String.Contents
import ClojureRt.Runtime.String.Compaction
import ClojureRt.Runtime.String.Comparison
import ClojureRt.Runtime.String.Trees
import ClojureRt.Runtime.String.Search
import ClojureRt.Lib.Matching
import ClojureRt.Runtime.ArrayMap.Equality
import ClojureRt.Runtime.PersistentArrayMap.Refinement
import ClojureRt.CompilerState.Registry
import ClojureRt.CompilerState.StoreClasses
import ClojureRt.CompilerState.Linking
import ClojureRt.CompilerState.Registration
import ClojureRt.CompilerState.Validation
import ClojureRt.CompilerState.Atomicity
import ClojureRt.Runtime.Ebr.Shutdown
import ClojureRt.Runtime.Vector.PopTail
import ClojureRt.Runtime.Vector.Layout
import ClojureRt.Runtime.Vector.Conj
import ClojureRt.Codegen.TypeSetMeaning
import ClojureRt.Runtime.IntegerDivision
import ClojureRt.Codegen.Dispatch
import ClojureRt.Codegen.LandingPads
import ClojureRt.Codegen.CallableInvoke
import ClojureRt.Runtime.PersistentArrayMap.Conservation
import ClojureRt.Lib.Exchange
import ClojureRt.Runtime.NumericTower.Defs
import ClojureRt.Runtime.NumericTower.Rules
import ClojureRt.Runtime.NumericTower.Refinement
import ClojureRt.Runtime.Rationals
import ClojureRt.Runtime.NumericTower.Exactness
import ClojureRt.Runtime.NamespaceCalls.Defs
import ClojureRt.Runtime.NamespaceCalls.Rules
import ClojureRt.Runtime.NamespaceCalls.Steps
import ClojureRt.Runtime.NamespaceCalls.Failures
import ClojureRt.Runtime.NamespaceCalls.Conservation
import ClojureRt.Runtime.Vector.Reading
import ClojureRt.Lib.Mixing
import ClojureRt.Runtime.Hash
import ClojureRt.Lib.TaggedWords
import ClojureRt.Runtime.Boxing
import ClojureRt.Codegen.ValueEncoder
import ClojureRt.Runtime.Vector.PushPop
import ClojureRt.Frontend.FreeVariables
import ClojureRt.Lib.Since
import ClojureRt.Runtime.PersistentList.Defs
import ClojureRt.Runtime.PersistentList.Rules
import ClojureRt.Runtime.PersistentList.Sequences
import ClojureRt.Runtime.PersistentList.Reversal
import ClojureRt.Runtime.PersistentList.Calls
import ClojureRt.Runtime.PersistentList.Laws
import ClojureRt.Lib.Trade
import ClojureRt.Lib.Calls
import ClojureRt.Lib.GivenHeap
import ClojureRt.Runtime.PersistentList.Reduction
import ClojureRt.Runtime.VectorSeq.Defs
import ClojureRt.Runtime.VectorSeq.Rules
import ClojureRt.Runtime.VectorSeq.Reduction
import ClojureRt.Runtime.VectorSeq.NodeReduction
import ClojureRt.Runtime.VectorSeq.Iterators
import ClojureRt.Runtime.VectorSeq.SeqReduction
import ClojureRt.Runtime.OverRelease
import ClojureRt.Runtime.Reductions
import ClojureRt.Lib.SignedWords
import ClojureRt.Runtime.VectorSeq.Movements
import ClojureRt.Runtime.VectorSeq.Texts
import ClojureRt.Runtime.VectorSeq.Reverse
import ClojureRt.Runtime.SeqPersistence
import ClojureRt.Runtime.VectorSeq.Enumeration
import ClojureRt.Runtime.SeqEnumeration
import ClojureRt.Lib.Search
import ClojureRt.CompilerState.Instances
import ClojureRt.CompilerState.StoreProtocols
import ClojureRt.CompilerState.ExtendClasses
import ClojureRt.CompilerState.Conditions
import ClojureRt.CompilerState.Hierarchy
import ClojureRt.CompilerState.MethodLookup
import ClojureRt.Lib.Transfer
import ClojureRt.Runtime.DynamicVars.Defs
import ClojureRt.Runtime.DynamicVars.Rules
import ClojureRt.Runtime.DynamicVars.Calls
import ClojureRt.Runtime.DynamicVars.Scopes
import ClojureRt.Runtime.DynamicVars.World
import ClojureRt.Runtime.DynamicVars.Accounting
import ClojureRt.Runtime.DynamicVars.Refinement
import ClojureRt.Runtime.DynamicVars.Isolation
