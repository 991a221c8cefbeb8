import MegaVM.Lib.Runs
import MegaVM.Server.Serial
import MegaVM.Server.Teardown
import MegaVM.Server.Isolation
import MegaVM.Server.Echo
import MegaVM.Server.Bounds
import MegaVM.Server.Adverts
import MegaVM.Server.FailStop
import MegaVM.Server.Wakeup
import MegaVM.Server.Statistics
import MegaVM.Client.Hang
import MegaVM.Notify
import MegaVM.WireFormat
import MegaVM.System.Termination
import MegaVM.System.Delivery
import MegaVM.SwapLog.Compare
import MegaVM.SwapLog.Contents
import MegaVM.SwapLog.Matcher
import MegaVM.ErrorState
import MegaVM.Batching
import MegaVM.HeapCopy.Pages
import MegaVM.HeapCopy.Range
import MegaVM.HeapCopy.Failure
import MegaVM.PingPattern
import MegaVM.Resources.Clean
import MegaVM.Vmscan.Steps
import MegaVM.Paging.Safety
