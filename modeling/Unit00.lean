import Unit00.Reports
import Unit00.Gaps
import Unit00.Exec
import Unit00.Leaves
import Unit00.Munmap
import Unit00.TrapEntry
import Unit00.Atomic
import Unit00.Boundary
import Unit00.Records
import Unit00.Reserved
import Unit00.Rounds
import Unit00.Allocator
import Unit00.Panics
import Unit00.Bystanders
import Unit00.Console
import Unit00.Startup
