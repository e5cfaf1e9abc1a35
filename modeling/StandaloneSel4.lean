import StandaloneSel4.Lib.Fuel
import StandaloneSel4.Lib.Bytes
import StandaloneSel4.Lib.Linked
import StandaloneSel4.Lib.FirstFit
import StandaloneSel4.Lib.Arena
import StandaloneSel4.Lib.Bump
import StandaloneSel4.Lib.Prog
import StandaloneSel4.Lib.Accesses
import StandaloneSel4.Lib.Handler
import StandaloneSel4.Lib.Maximal
import StandaloneSel4.Lib.World
import StandaloneSel4.Lib.Sum
import StandaloneSel4.Lib.Steps
import StandaloneSel4.Lib.Output
import StandaloneSel4.Lib.Total
import StandaloneSel4.Word
import StandaloneSel4.CString
import StandaloneSel4.Copying
import StandaloneSel4.Strncpy
import StandaloneSel4.Sync.BinSem
import StandaloneSel4.Sync.Threads
import StandaloneSel4.Sync.Inversion
import StandaloneSel4.Sync.Exclusion
import StandaloneSel4.Sync.Draining
import StandaloneSel4.Sync.Hanging
import StandaloneSel4.Sync.Splitting
import StandaloneSel4.Heap.Chunk
import StandaloneSel4.Heap.Kmalloc
import StandaloneSel4.Heap.Entry
import StandaloneSel4.Heap.Layout
import StandaloneSel4.Heap.FreeList
import StandaloneSel4.Heap.Splice
import StandaloneSel4.Heap.Search
import StandaloneSel4.Heap.Invariant
import StandaloneSel4.Heap.Runs
import StandaloneSel4.Heap.Threads
import StandaloneSel4.Heap.Integrity
import StandaloneSel4.Heap.Fit
import StandaloneSel4.Heap.Cleared
import StandaloneSel4.Heap.BadFree
import StandaloneSel4.Heap.Realloc
import StandaloneSel4.Heap.Released
import StandaloneSel4.Heap.Preserved
import StandaloneSel4.Heap.Shared
import StandaloneSel4.Heap.Concurrent
import StandaloneSel4.Heap.Hanging
import StandaloneSel4.Heap.Accesses
import StandaloneSel4.Heap.Footprint
import StandaloneSel4.Heap.Interleaved
import StandaloneSel4.Kernel
import StandaloneSel4.Objects.Pool
import StandaloneSel4.Objects.Slots
import StandaloneSel4.Objects.Retypes
import StandaloneSel4.Objects.PageTable
import StandaloneSel4.Objects.Mappings
import StandaloneSel4.Objects.Paging
import StandaloneSel4.Objects.Supplied
import StandaloneSel4.Objects.Factory
import StandaloneSel4.Objects.ThreadPages
import StandaloneSel4.Objects.Cleanup
import StandaloneSel4.Objects.Served
import StandaloneSel4.Objects.Progress
import StandaloneSel4.Syscall.Message
import StandaloneSel4.Syscall.Requests
import StandaloneSel4.Syscall.Perform
import StandaloneSel4.Syscall.Leftovers
import StandaloneSel4.Server.Table
import StandaloneSel4.Server.Dispatch
import StandaloneSel4.Server.Wire
import StandaloneSel4.Server.Responses
import StandaloneSel4.Server.Replies
import StandaloneSel4.Server.HeapReplies
import StandaloneSel4.Server.Service
import StandaloneSel4.Heap.Book
import StandaloneSel4.Server.Sessions
import StandaloneSel4.Console.Editor
import StandaloneSel4.Console.BasicString
import StandaloneSel4.Console.Shell
import StandaloneSel4.Console.Substr
import StandaloneSel4.Console.Prefixes
import StandaloneSel4.Console.Ownership
import StandaloneSel4.Console.Strtol
import StandaloneSel4.Console.Numerals
import StandaloneSel4.Console.Grammar
import StandaloneSel4.Console.Scanning
import StandaloneSel4.Console.Accepting
import StandaloneSel4.Console.Decimal
import StandaloneSel4.Console.Commands
import StandaloneSel4.Console.Operands
import StandaloneSel4.Console.ThreadCommands
import StandaloneSel4.Console.Cuts
import StandaloneSel4.Console.Priority
import StandaloneSel4.Console.Returning
import StandaloneSel4.Printf.Ntoa
import StandaloneSel4.Printf.Format
import StandaloneSel4.Printf.Text
import StandaloneSel4.Printf.Language
import StandaloneSel4.Printf.Numbers
import StandaloneSel4.Printf.Strings
import StandaloneSel4.Containers.Vector
import StandaloneSel4.Containers.Growth
import StandaloneSel4.Containers.NoRoom
import StandaloneSel4.Containers.Erase
import StandaloneSel4.Console.History
import StandaloneSel4.Console.Orders
import StandaloneSel4.Console.Terminal
import StandaloneSel4.Console.Printed
