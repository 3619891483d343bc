import Mproxy.Action
import Mproxy.Flow.Allocation
import Mproxy.Flow.Capacity
import Mproxy.Flow.Delivery
import Mproxy.Flow.Faults
import Mproxy.Flow.Isolation
import Mproxy.Flow.Malformed
import Mproxy.Flow.OnFlowRead
import Mproxy.Flow.Prescribed
import Mproxy.Flow.Progress
import Mproxy.Flow.Session
import Mproxy.Flow.Walk
import Mproxy.Generator.Agreement
import Mproxy.Generator.CTable
import Mproxy.Generator.DropTable
import Mproxy.Generator.ParseRow
import Mproxy.Generator.Python
import Mproxy.Generator.Retarget
import Mproxy.Lib.Classes
import Mproxy.Lib.Components
import Mproxy.Lib.Framing
import Mproxy.Lib.IndexMap
import Mproxy.Lib.LastWriter
import Mproxy.Lib.Memory
import Mproxy.Lib.Runs
import Mproxy.Lib.Separated
import Mproxy.Lib.Wire
import Mproxy.Loci
import Mproxy.ObjectId
import Mproxy.OfVersion10
import Mproxy.Policy
import Mproxy.Proxy.Blame
import Mproxy.Proxy.Cleanup
import Mproxy.Proxy.Clients
import Mproxy.Proxy.Crossing
import Mproxy.Proxy.Delivered
import Mproxy.Proxy.Overlap
import Mproxy.Proxy.Pairing
import Mproxy.Proxy.Race
import Mproxy.Proxy.Serial
import Mproxy.Proxy.Sessions
import Mproxy.Proxy.Shutdown
import Mproxy.Proxy.Steps
import Mproxy.Proxy.Teardown
import Mproxy.Proxy.WellFormed
import Mproxy.RuleValues
import Mproxy.Rules.AddRule
import Mproxy.Rules.Args
import Mproxy.Rules.ArgsLayout
import Mproxy.Rules.ArgsRun
import Mproxy.Rules.Columns
import Mproxy.Rules.Csv
import Mproxy.Rules.Escape
import Mproxy.Rules.Grammar
import Mproxy.Rules.History
import Mproxy.Rules.Libc
import Mproxy.Rules.Normalize
import Mproxy.Rules.OwnText
import Mproxy.Rules.Profile
import Mproxy.Rules.Quoted
import Mproxy.Rules.Reading
import Mproxy.Rules.RowLayout
import Mproxy.Rules.RowTexts
import Mproxy.Rules.Split
import Mproxy.Rules.Swallow
import Mproxy.Rules.Wildcard
import Mproxy.Stream
import Mproxy.TableRange
import Mproxy.Tables
import Mproxy.Target
