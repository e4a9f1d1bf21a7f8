import Cairn.Internal.Runs
import Cairn.Internal.LowestFirst
import Cairn.Internal.Pairing
import Cairn.Internal.Amd64
import Cairn.Internal.BlockDevice
import Cairn.Internal.Interference
import Cairn.Internal.UserCode
import Cairn.Internal.Contexts
import Cairn.Internal.PageTable
import Cairn.Internal.TableMemory
import Cairn.CapCore.Capability
import Cairn.CapCore.Codec
import Cairn.CapCore.Table
import Cairn.CapCore.Derivation
import Cairn.CapCore.Revocation
import Cairn.CapCore.Reuse
import Cairn.CapCore.Provenance
import Cairn.FrameAlloc.Bitmap
import Cairn.FrameAlloc.RangeList
import Cairn.FrameAlloc.Coalesce
import Cairn.FrameAlloc.Boot
import Cairn.FrameAlloc.Refinement
import Cairn.Objstore.Superblock
import Cairn.Objstore.Store
import Cairn.Objstore.Log
import Cairn.Objstore.Commit
import Cairn.Objstore.Crash
import Cairn.Objstore.LoadExtent
import Cairn.Objstore.FramePool
import Cairn.Objstore.ReadError
import Cairn.Objstore.RecordChain
import Cairn.Objstore.FailedPut
import Cairn.Objstore.Scratch
import Cairn.Virtio.Queue
import Cairn.Virtio.Completion
import Cairn.Virtio.Window
import Cairn.Virtio.RingThree
import Cairn.Kernel.State
import Cairn.Kernel.Capspace
import Cairn.Kernel.Sched
import Cairn.Kernel.Integrity
import Cairn.Kernel.Boot
import Cairn.Kernel.Shipped
import Cairn.Kernel.Ipc
import Cairn.Kernel.Stubs
import Cairn.Kernel.Seats
import Cairn.Kernel.Deadlines
import Cairn.Kernel.Background
import Cairn.Kernel.Calls
import Cairn.Kernel.Parking
import Cairn.Kernel.Authority
import Cairn.Kernel.Confinement
import Cairn.Kernel.Conservation
import Cairn.Kernel.Apart
import Cairn.Kernel.Rendezvous
import Cairn.Kernel.Agreement
import Cairn.Kernel.Scheduling
import Cairn.Kernel.SavedContexts
import Cairn.Kernel.Processor
import Cairn.Kernel.KernelStacks
import Cairn.Kernel.Switching
import Cairn.Kernel.SyscallPath
import Cairn.Kernel.VirtualCpus
import Cairn.Kernel.Resumption
import Cairn.Kernel.Admission
import Cairn.Kernel.Domains
import Cairn.Kernel.Gate
import Cairn.Kernel.Termination
import Cairn.Kernel.Exceptions
import Cairn.Kernel.Paging
import Cairn.Kernel.PageEdits
import Cairn.Kernel.Ledger
import Cairn.Kernel.Sides
import Cairn.Kernel.Constructors
import Cairn.Kernel.Payloads
import Cairn.Kernel.Notifications
