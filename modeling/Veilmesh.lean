import Veilmesh.Protocol.Work
import Veilmesh.Account.Publish
import Veilmesh.Message.Send
import Veilmesh.Message.Receipt
import Veilmesh.Group.Commit
import Veilmesh.Group.Privilege
import Veilmesh.Nodedir.SnapshotSize
import Veilmesh.Nodedir.Signing
import Veilmesh.Node.Reopen
import Veilmesh.Node.Signing
import Veilmesh.Node.Limiter
import Veilmesh.Client.Sync
import Veilmesh.Client.Prune
import Veilmesh.Client.WriteFault
import Veilmesh.Client.Direct
import Veilmesh.Client.Delivery
import Veilmesh.Client.Honest
import Veilmesh.Media.Batching
import Veilmesh.Call.Binding
import Veilmesh.Call.Slots
import Veilmesh.Mix.Capacity
import Veilmesh.Mix.Shape
import Veilmesh.Texts
