import Udynlink.LoadSizes
import Udynlink.UntaggedMoves
import Udynlink.LoadWrites
import Udynlink.Validator
import Udynlink.Mkmodule.LotTable
import Udynlink.Machine.Alike
import Udynlink.BlockLayout
import Udynlink.HostSyms.HashResolve
import Udynlink.HostSyms.TrieLookup
import Udynlink.Lookup
import Udynlink.Deps.LoadingStack
import Udynlink.Deps.Registry
import Udynlink.Deps.ResolutionEnds
import Udynlink.Deps.Graph
import Udynlink.Deps.StubRange
import Udynlink.Deps.PoolRuns
import Udynlink.Deps.Unload
import Udynlink.SymbolReader
import Udynlink.Deps.SlotsServed
import Udynlink.Deps.ModuleTables
import Udynlink.Parser.ImageSize
import Udynlink.Parser.SameLookups
import Udynlink.LinkConfluence
import Udynlink.SectionSpans
import Udynlink.HostSyms.SymCache
import Udynlink.Cpp.Ownership
import Udynlink.Wasm.Tables
import Udynlink.Wasm.MemoryRuns
import Udynlink.Wasm.ZeroInit
import Udynlink.LinkSymbol
import Udynlink.RuntimeVas
import Udynlink.LoadBalance
import Udynlink.MoveDeeds
import Udynlink.Lifecycle
import Udynlink.Parser.RuntimeLayout
import Udynlink.Parser.AllocationPlan
import Udynlink.Parser.SimulatedLoad
