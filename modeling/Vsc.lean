import Vsc.Accounting
import Vsc.Stale
import Vsc.HandlerOwner
import Vsc.DataCopy
import Vsc.Delivery
import Vsc.EventInv
import Vsc.Rollback
import Vsc.EventOwner
import Vsc.Calls
import Vsc.ScatterCopy
import Vsc.DataBatch
import Vsc.Message
import Vsc.Siblings
import Vsc.Sweep
import Vsc.Fifo
import Vsc.Exclusion
import Vsc.Progress
import Vsc.Pointers
import Vsc.Quiescence
import Vsc.Wakeup
import Vsc.Service
import Vsc.Answer
import Vsc.Attachment
import Vsc.Restore
import Vsc.Admission
import Vsc.Verdict
import Vsc.Acceptance
import Vsc.Serial
import Vsc.PoolBits
import Vsc.Volumes
import Vsc.Disks
import Vsc.Ioctl
import Vsc.Control
import Vsc.Wire
import Vsc.Storage
import Vsc.Reanswer
import Vsc.Leak
import Vsc.Balance
import Vsc.Mounts
import Vsc.BatchPrefix
import Vsc.Gone
