import TaskSpooler.Client.Expand
import TaskSpooler.Client.Session
import TaskSpooler.Client.Tail
import TaskSpooler.CpuBind.Basic
import TaskSpooler.CpuBind.Cpuset
import TaskSpooler.CpuBind.Defrag
import TaskSpooler.CpuBind.Groups
import TaskSpooler.CpuBind.Histories
import TaskSpooler.CpuBind.Invariant
import TaskSpooler.CpuBind.IoBlocks
import TaskSpooler.CpuBind.IoThread
import TaskSpooler.CpuBind.Mems
import TaskSpooler.CpuBind.Pool
import TaskSpooler.CpuBind.Primary
import TaskSpooler.Jobs.Basic
import TaskSpooler.Jobs.Requests
import TaskSpooler.Jobs.Restore
import TaskSpooler.Jobs.Running
import TaskSpooler.Lib.Bytes
import TaskSpooler.Lib.Chunks
import TaskSpooler.Lib.Descend
import TaskSpooler.Lib.Except
import TaskSpooler.Lib.Qsort
import TaskSpooler.Lib.Ranked
import TaskSpooler.Lib.Reader
import TaskSpooler.Lib.Run
import TaskSpooler.Ops.Answer
import TaskSpooler.Ops.Frame
import TaskSpooler.Ops.Front
import TaskSpooler.Ops.Leader
import TaskSpooler.Ops.Recount
import TaskSpooler.Ops.Runs
import TaskSpooler.Ops.Steps
import TaskSpooler.Ops.Turn
import TaskSpooler.Process.FindPid
import TaskSpooler.Process.Tree
import TaskSpooler.Safety.Accounting
import TaskSpooler.Safety.Admission
import TaskSpooler.Safety.Authority
import TaskSpooler.Safety.Buffers
import TaskSpooler.Safety.Complete
import TaskSpooler.Safety.Confirmation
import TaskSpooler.Safety.CurrentJob
import TaskSpooler.Safety.Deadlock
import TaskSpooler.Safety.Dependencies
import TaskSpooler.Safety.Dispatch
import TaskSpooler.Safety.FinishedTable
import TaskSpooler.Safety.Formats
import TaskSpooler.Safety.Framing
import TaskSpooler.Safety.InFront
import TaskSpooler.Safety.Instance
import TaskSpooler.Safety.JobIds
import TaskSpooler.Safety.KeepsFront
import TaskSpooler.Safety.KillAll
import TaskSpooler.Safety.LastJob
import TaskSpooler.Safety.Limits
import TaskSpooler.Safety.Lives
import TaskSpooler.Safety.Lock
import TaskSpooler.Safety.QueueOrder
import TaskSpooler.Safety.Recount
import TaskSpooler.Safety.Refresh
import TaskSpooler.Safety.Refused
import TaskSpooler.Safety.Remove
import TaskSpooler.Safety.SameFile
import TaskSpooler.Safety.Seed
import TaskSpooler.Safety.Starts
import TaskSpooler.Safety.Startup
import TaskSpooler.Safety.Suspension
import TaskSpooler.Safety.Unkept
import TaskSpooler.Safety.Urgent
import TaskSpooler.Safety.Waits
import TaskSpooler.Safety.WallTime
import TaskSpooler.Sched.Front
import TaskSpooler.Server.Boot
import TaskSpooler.Server.Environment
import TaskSpooler.Server.Loop
import TaskSpooler.Server.Transfer
import TaskSpooler.Store.Ints
import TaskSpooler.Store.RoundTrip
import TaskSpooler.Vec.Refine
