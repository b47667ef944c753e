import BrightS.Proofs.KmallocPages
import BrightS.Proofs.KmallocSize
import BrightS.Proofs.Nvme
import BrightS.Proofs.ServiceDeps
import BrightS.Proofs.Tty
import BrightS.Proofs.PagingAccess
import BrightS.Proofs.PagingIsolation
import BrightS.Proofs.PagingTaken
import BrightS.Proofs.PagingRoom
import BrightS.Proofs.ElfLeftover
import BrightS.Proofs.ExecFailure
import BrightS.Proofs.Resolve
import BrightS.Proofs.MountPrefix
import BrightS.Proofs.OpenFailure
import BrightS.Proofs.Readdir
import BrightS.Proofs.Runtime
import BrightS.Proofs.Simd
import BrightS.Proofs.NetFit
import BrightS.Proofs.RamfsWrites
import BrightS.Proofs.PmemSearch
import BrightS.Proofs.PmemLow
import BrightS.Proofs.Proc
import BrightS.Proofs.Sched
import BrightS.Proofs.SchedContext
import BrightS.Proofs.SchedMembers
import BrightS.Proofs.TaskIdentity
import BrightS.Proofs.Trap
import BrightS.Proofs.ProcPids
import BrightS.Proofs.ProcMem
import BrightS.Proofs.ProcStacks
import BrightS.Proofs.ProcRecycle
import BrightS.Proofs.ProcExec
import BrightS.Proofs.Ramfs
import BrightS.Proofs.RamfsPaths
import BrightS.Proofs.RamfsResidue
import BrightS.Proofs.RamfsSession
import BrightS.Proofs.RamfsIdentity
import BrightS.Proofs.Path
import BrightS.Proofs.Vfs2
import BrightS.Proofs.Files
import BrightS.Proofs.FdTables
import BrightS.Proofs.FdIdentity
import BrightS.Proofs.Tasks
import BrightS.Proofs.TcpHandshake
import BrightS.Proofs.TcpStream
import BrightS.Proofs.TcpAccept
import BrightS.Proofs.ElfConfined
import BrightS.Proofs.NetRecv
import BrightS.Proofs.PipeSlots
import BrightS.Proofs.Syshook
import BrightS.Proofs.Wifi
import BrightS.Proofs.Memmap
import BrightS.Proofs.UserProgram
import BrightS.Proofs.DbufferFlip
import BrightS.Proofs.Btrfs
import BrightS.Proofs.Signal
import BrightS.Proofs.CacheLookup
import BrightS.Proofs.Checksum
import BrightS.Proofs.ArpCache
import BrightS.Proofs.CopyFile
import BrightS.Proofs.Profile
import BrightS.Proofs.Ramdisk
import BrightS.Proofs.BtrfsTree
import BrightS.Proofs.Madt
import BrightS.Proofs.Beacon
import BrightS.Proofs.Strings
import BrightS.Proofs.Commands
import BrightS.Proofs.Clock
import BrightS.Proofs.UserShell
import BrightS.Proofs.IpText
import BrightS.Proofs.FilePool
import BrightS.Proofs.Lines
import BrightS.Proofs.Spans
import BrightS.Proofs.LanArp
import BrightS.Proofs.RamfsTrees
import BrightS.Proofs.LineEditor
import BrightS.Proofs.RootLogin
import BrightS.Proofs.InputMethod
import BrightS.Proofs.Dhcpd
