import DriverQueries.AfterFree
import DriverQueries.AlertSuppression
import DriverQueries.Alerts
import DriverQueries.AllocText
import DriverQueries.AssignmentChains
import DriverQueries.Attachment
import DriverQueries.Balance
import DriverQueries.Callouts
import DriverQueries.CodeSegments
import DriverQueries.DeviceInit
import DriverQueries.Dialect
import DriverQueries.DispatchTable
import DriverQueries.DvlTests
import DriverQueries.Entries
import DriverQueries.ExitStatus
import DriverQueries.ExplicitLevels
import DriverQueries.ExternalDrivers
import DriverQueries.Fallback
import DriverQueries.FalseBranch
import DriverQueries.FetchOverlap
import DriverQueries.FieldAccesses
import DriverQueries.FirstNodes
import DriverQueries.FloatProtection
import DriverQueries.FloatStates
import DriverQueries.FullRuns
import DriverQueries.HandleOrigins
import DriverQueries.InfiniteLoops
import DriverQueries.InitFunctions
import DriverQueries.KernelBranches
import DriverQueries.LevelTexts
import DriverQueries.MatchText
import DriverQueries.NextLines
import DriverQueries.OverflowGuards
import DriverQueries.ParallelRuns
import DriverQueries.PendingStatus
import DriverQueries.PragmaStack
import DriverQueries.Probes
import DriverQueries.RootDirectory
import DriverQueries.RtlAccess
import DriverQueries.RuleLists
import DriverQueries.RunTests
import DriverQueries.Saves
import DriverQueries.Sentinel
import DriverQueries.SetEvent
import DriverQueries.StringCopies
import DriverQueries.VirtualDispatch
import DriverQueries.WhenCondition
import DriverQueries.WhenForm
import DriverQueries.ZwAccess
