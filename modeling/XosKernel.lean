import XosKernel.Mem.VmaRange
import XosKernel.Signal.Return
import XosKernel.Mem.Isolation
import XosKernel.Mem.ShmRun
import XosKernel.Ipc.ReqRun
import XosKernel.Proc.WaitOnce
import XosKernel.Proc.WaitWake
import XosKernel.Ipc.Futex
import XosKernel.Fs.PageCacheRun
import XosKernel.Sched.RunQueueRun
import XosKernel.Sched.TimedWaitRun
import XosKernel.Ipc.PipeRun
import XosKernel.Net.UnixSockRun
import XosKernel.Fs.TmpfsRun
import XosKernel.Event.EpollReport
import XosKernel.Signal.KillSound
import XosKernel.Net.ScmRights
import XosKernel.Mem.VmaRefs
import XosKernel.Mem.Dma
import XosKernel.Sync.Rcu
import XosKernel.Sync.Mutex
import XosKernel.Driver.BlkDev
import XosKernel.Driver.VringRun
import XosKernel.Net.Packet
import XosKernel.Proc.ElfLoad
import XosKernel.Sync.Workqueue
import XosKernel.Tty.LdiscRun
import XosKernel.Mem.MemfdRun
import XosKernel.Fs.PathWalkSafe
import XosKernel.Mem.GapScan
import XosKernel.Mem.SlabFind
import XosKernel.Fs.Flock
import XosKernel.Fs.FatFree
import XosKernel.Event.Eventfd
import XosKernel.Event.Inotify
import XosKernel.Tty.Mode
import XosKernel.Sched.Nanosleep
import XosKernel.Event.EvdevQueue
import XosKernel.Net.RecvError
import XosKernel.Proc.JobLaunch
import XosKernel.Ipc.IpcFd
