import NekOS.Ipc.Atomicity
import NekOS.Ipc.Intrusion
import NekOS.Ipc.Replies
import NekOS.Ipc.Staging
import NekOS.Ipc.Stranding
import NekOS.Processes.ExitCodes
import NekOS.Paging.Refinement
import NekOS.Paging.Window
import NekOS.AddressSpace.Confinement
import NekOS.AddressSpace.ForkFailure
import NekOS.AddressSpace.Isolation
import NekOS.AddressSpace.Teardown
import NekOS.Ramdisk.RoundTrip
import NekOS.Ramdisk.Safety
import NekOS.Fat32.Allocator
import NekOS.Fat32.Extending
import NekOS.Fat32.Freeing
import NekOS.Fat32.Mounting
import NekOS.Fat32.Resolution
import NekOS.Fat32.Server
import NekOS.Fat32.Sessions
import NekOS.Fat32.Writing
import NekOS.Kernel.PageRuns
import NekOS.Userland.Formatting
import NekOS.Userland.HeapSafety
import NekOS.Userland.Marshalling
