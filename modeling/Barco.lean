import Barco.Effect.Interleave
import Barco.Main
import Barco.SecKernel
import Barco.Filter
import Barco.Privileges
import Barco.Descriptors
import Barco.FailClosed
import Barco.Requests
import Barco.Wire
import Barco.NetTruth
import Barco.Replies
import Barco.MainWalk
import Barco.VethNames
import Barco.VethRuns
import Barco.Leak
import Barco.Gateway
import Barco.NatText
import Barco.FdTable
import Barco.Buffers
import Barco.Cidr
import Barco.Processes
import Barco.Handshake
import Barco.Agreement
import Barco.Outcome
import Barco.Linux.RuleChain
import Barco.NatRules
import Barco.WaitLoops
import Barco.NameInputs
import Barco.ResolvConf
import Barco.GroupLimits
import Barco.ReplyBounds
import Barco.SetIdFiles
import Barco.Credentials
import Barco.Linux.MountTree
import Barco.MountKernel
import Barco.TempDirs
import Barco.RootSwitch
import Barco.UidRange
import Barco.GroupSharing
import Barco.WrittenLines
