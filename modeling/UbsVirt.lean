import UbsVirt.Enpu.CardNumbers
import UbsVirt.Enpu.CheckpointFile
import UbsVirt.Enpu.ConfigRoundTrip
import UbsVirt.Enpu.CoreOwner
import UbsVirt.Enpu.CoreQuota
import UbsVirt.Enpu.CoreRound
import UbsVirt.Enpu.EvaluatorOrder
import UbsVirt.Enpu.RecoverTwice
import UbsVirt.Enpu.RollbackVerdict
import UbsVirt.Enpu.SharedInit
import UbsVirt.Enpu.SwapChoice
import UbsVirt.Enpu.SwapOwnership
import UbsVirt.Enpu.SwapRange
import UbsVirt.Enpu.SwapRequest
import UbsVirt.Enpu.SwapRestore
import UbsVirt.Enpu.SwapRollback
import UbsVirt.Enpu.SwapStart
import UbsVirt.Enpu.TlsfRefine
import UbsVirt.Enpu.WatchdogProgress
import UbsVirt.Mcs.Accounting
import UbsVirt.Mcs.LaunchGate
import UbsVirt.Mcs.SharedInit
import UbsVirt.Udm.BindLock
import UbsVirt.Udm.MemoryAffinity
import UbsVirt.Udm.NicMatching
import UbsVirt.Udm.Rollback
import UbsVirt.Vas.Affinity
import UbsVirt.Vas.CommandLine
import UbsVirt.Vas.Deletion
import UbsVirt.Vas.Levels
import UbsVirt.Vas.NumaPolicy
