import Xv6.Blocks.Accounting
import Xv6.Blocks.Fault
import Xv6.Blocks.MkfsResult
import Xv6.Console.Buffer
import Xv6.Console.Uart
import Xv6.Fs.Failure
import Xv6.Fs.Itable
import Xv6.Fs.LinkOverflow
import Xv6.Fs.Paths
import Xv6.Kernel.CowAtomic
import Xv6.Kernel.CowRefinement
import Xv6.Kernel.ExecCall
import Xv6.Kernel.ExecLoad
import Xv6.Kernel.ForkFailure
import Xv6.Kernel.KfreeRace
import Xv6.Kernel.SystemRun
import Xv6.Kernel.Waitx
import Xv6.Lazy.Arrival
import Xv6.Lazy.Safety
import Xv6.Log.Admission
import Xv6.Log.Recovery
import Xv6.Pipes.Delivery
import Xv6.Pipes.Sleepers
import Xv6.Process.Sleeplock
import Xv6.Process.Ticks
import Xv6.Sorting.KeyRange
import Xv6.Sorting.Timestamps
import Xv6.User.Grep
import Xv6.User.MallocSize
