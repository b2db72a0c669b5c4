import GAMember.Effects.Prog
import GAMember.Effects.Machine
import GAMember.Effects.Supervisor
import GAMember.Js.Value
import GAMember.Js.Object
import GAMember.Js.Heap
import GAMember.Js.Text
import GAMember.Js.Query
import GAMember.Firebase.Tree
import GAMember.State.Store
import GAMember.State.Flags
import GAMember.Saga.Effect
import GAMember.Saga.Welcome
import GAMember.Saga.Portal
import GAMember.Saga.Root
import GAMember.Saga.Points
import GAMember.Saga.Watchers
import GAMember.Device.World
import GAMember.Device.System
import GAMember.Device.Progress
import GAMember.Device.Session
import GAMember.Device.Logout
import GAMember.Run.Welcome
import GAMember.Run.Portal
import GAMember.Run.Tokens
import GAMember.Cloud.Database
import GAMember.Cloud.Frame
import GAMember.Cloud.Race
import GAMember.Cloud.Refresh
import GAMember.Cloud.Address
import GAMember.Cloud.Atomic
import GAMember.Http.Options
import GAMember.Http.Settings
import GAMember.Http.Retry
import GAMember.Http.Exchanges
import GAMember.Device.Screens
import GAMember.Effects.Handler
import GAMember.Http.Attempts
import GAMember.Run.Wire
import GAMember.Sorted.Table
import GAMember.Firebase.Llrb
import GAMember.Firebase.Balance
import GAMember.Firebase.Removal
import GAMember.Firebase.Builder
import GAMember.Firebase.Dictionary
import GAMember.Firebase.Enumerator
import GAMember.Firebase.Key
import GAMember.Firebase.Path
import GAMember.Firebase.Node
import GAMember.Firebase.ImmutableTree
import GAMember.Firebase.CompoundWrite
import GAMember.Firebase.Apply
import GAMember.Firebase.WriteTree
import GAMember.Firebase.EventCache
import GAMember.Firebase.Merge
import GAMember.Firebase.Connection
import GAMember.Firebase.Puts
import GAMember.Firebase.Link
import GAMember.Firebase.Resend
import GAMember.Firebase.Transactions
