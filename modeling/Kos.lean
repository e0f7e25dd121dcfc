import Kos.Common.Word
import Kos.Common.Run
import Kos.Common.FreeCount
import Kos.Common.ByteMem
import Kos.Common.Cached
import Kos.Common.Chain
import Kos.Common.Radix
import Kos.Common.Ring
import Kos.Common.Linked
import Kos.Common.Registry
import Kos.Common.Asm
import Kos.Common.Traced
import Kos.Common.OnesComplement
import Kos.Common.Effects
import Kos.Common.Turns
import Kos.Common.Pursuit
import Kos.Common.Failing
import Kos.Common.Lifetime
import Kos.Common.PageWalk
import Kos.Common.Stack
import Kos.Common.Exclusive
import Kos.Common.Ownership
import Kos.Common.InTurn
import Kos.Kernel
import Kos.Spinlock
import Kos.Strings
import Kos.Strings.Copy
import Kos.Strings.Search
import Kos.Multiboot
import Kos.Boot.Paging
import Kos.Idt.Restore
import Kos.Idt.Gates
import Kos.Idt.Dispatch
import Kos.Pit
import Kos.Console.Vga
import Kos.Console.Printf
import Kos.Console.Faithful
import Kos.Pmm.Model
import Kos.Pmm.Locked
import Kos.Pmm.Accounting
import Kos.Pmm.Zones
import Kos.Pmm.FirstFit
import Kos.Pmm.Backing
import Kos.Pmm.Placement
import Kos.Pmm.View
import Kos.Pmm.Ledger
import Kos.Pmm.Supply
import Kos.Pmm.Spare
import Kos.Kmalloc.Conservation
import Kos.Kmalloc.Free
import Kos.Kmalloc.Footprint
import Kos.Kmalloc.Concurrent
import Kos.Vmm.MapPage
import Kos.Vmm.Calls
import Kos.Vmm.Leaves
import Kos.Vmm.MapPages
import Kos.Vmm.HugeBlock
import Kos.Vmm.Init
import Kos.Vmm.Image
import Kos.Vmm.Spaces
import Kos.Vmm.Tlb
import Kos.Vmm.UserHalf
import Kos.Vmm.Isolation
import Kos.Vmm.Owners
import Kos.Vmm.Physical
import Kos.Sched.Switch
import Kos.Sched.Model
import Kos.Sched.Queue
import Kos.Sched.Create
import Kos.Sched.Runqueue
import Kos.Sched.Stacks
import Kos.Sched.Cleanup
import Kos.Sched.Context
import Kos.Sched.RoundRobin
import Kos.Net.Bounds
import Kos.Net.Arp
import Kos.Net.Send
import Kos.Net.RoundTrip
import Kos.Net.Checksum
import Kos.Net.Segment
import Kos.Net.Datagram
import Kos.Net.Sums
import Kos.Net.Verify
import Kos.Net.Options
import Kos.Tcp.Stream
import Kos.Tcp.Fifo
import Kos.Tcp.Handshake
import Kos.Tcp.Demux
import Kos.Tcp.Steps
import Kos.Tcp.Sequence
import Kos.Tcp.Window
import Kos.Tcp.EndOfStream
import Kos.Tcp.Unread
import Kos.Tcp.Closing
import Kos.Tcp.Address
import Kos.Tcp.Advertise
import Kos.Tcp.Ports
import Kos.Tcp.Allocation
import Kos.Tcp.Cleanup
import Kos.Tcp.Transmit
import Kos.Tcp.EndToEnd
import Kos.Tcp.InOrder
import Kos.Tcp.Quiescence
import Kos.Net.DataOffset
import Kos.Net.Delivery
import Kos.Net.Buffers
import Kos.Net.Ping
import Kos.Net.Lan
import Kos.Pci.Bars
import Kos.Pci.Msi
