import BenchHashmaps.Base
import BenchHashmaps.Bench
import BenchHashmaps.Bench.Boost
import BenchHashmaps.Bench.Checksum
import BenchHashmaps.Bench.Counters
import BenchHashmaps.Bench.PassLaws
import BenchHashmaps.Bench.Recorded
import BenchHashmaps.Bench.Trace
import BenchHashmaps.Boost.Group
import BenchHashmaps.Boost.Interleaved
import BenchHashmaps.Boost.Invariant
import BenchHashmaps.Boost.Layouts
import BenchHashmaps.Boost.Mulx
import BenchHashmaps.Boost.Operations
import BenchHashmaps.Boost.Probe
import BenchHashmaps.Boost.Rehash
import BenchHashmaps.Boost.Reserve
import BenchHashmaps.Boost.SizeLaws
import BenchHashmaps.Boost.Sizing
import BenchHashmaps.Boost.Table
import BenchHashmaps.Lib.Agree
import BenchHashmaps.Lib.Bits
import BenchHashmaps.Lib.Graph
import BenchHashmaps.Lib.Owned
import BenchHashmaps.Lib.Packed
import BenchHashmaps.Lib.Probing
import BenchHashmaps.Lib.Rounding
import BenchHashmaps.Lib.Runs
import BenchHashmaps.Lib.Slots
import BenchHashmaps.Lib.Text
import BenchHashmaps.Lib.TwoChoice
import BenchHashmaps.Lib.Words
import BenchHashmaps.Measure
import BenchHashmaps.Measure.FieldLaws
import BenchHashmaps.Measure.Isolation
import BenchHashmaps.Measure.Lifecycle
import BenchHashmaps.Measure.Perf
import BenchHashmaps.Measure.X86
import BenchHashmaps.Report
import BenchHashmaps.Report.Exact
import BenchHashmaps.Report.Grid
import BenchHashmaps.Report.Section
import BenchHashmaps.Report.Table
import BenchHashmaps.TwoWay
import BenchHashmaps.TwoWay.Balance
import BenchHashmaps.TwoWay.Growth
import BenchHashmaps.TwoWay.Hashing
import BenchHashmaps.TwoWay.InsertLaws
import BenchHashmaps.TwoWay.Invariant
import BenchHashmaps.TwoWay.LookupLaws
import BenchHashmaps.TwoWay.Lookups
import BenchHashmaps.TwoWay.Reachable
import BenchHashmaps.TwoWay.Refinement
import BenchHashmaps.TwoWay.Representation
import BenchHashmaps.TwoWay.Sentinel
import BenchHashmaps.TwoWay.SlotLaws
import BenchHashmaps.TwoWay.View
