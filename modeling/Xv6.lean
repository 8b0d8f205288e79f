import Xv6.Log.CrashAtomicity
import Xv6.Fs.ConcurrentIput
import Xv6.Log.Reservation
import Xv6.Fs.BlockAccounting
import Xv6.Pipe.Fifo
import Xv6.Pipe.Wakeup
import Xv6.Process.Kill
import Xv6.Process.Priority
import Xv6.Process.Pids
import Xv6.Process.ExitWait
import Xv6.Process.Interruptible
import Xv6.Process.Sleeplock
import Xv6.Console.Delivery
import Xv6.Fs.FileCalls
import Xv6.Fs.FileWrite
import Xv6.Fs.ByteArray
import Xv6.Buffer.Exhaustion
import Xv6.Disk.IdeRefinement
import Xv6.Files.Exhaustion
import Xv6.Memory.Copyout
import Xv6.Shell.Run
import Xv6.Malloc.Usable
import Xv6.Fs.PathResolution
import Xv6.User.CountUD
import Xv6.User.Memmove
import Xv6.Console.Ticks
import Xv6.Boot.MpTable
import Xv6.User.Grep
import Xv6.Memory.PageMap
