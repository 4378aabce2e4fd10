import Rekuest.Agents.AfterInit
import Rekuest.Agents.AfterRegistration
import Rekuest.Agents.Agent
import Rekuest.Agents.CallKeys
import Rekuest.Agents.Caller
import Rekuest.Agents.CallerCancel
import Rekuest.Agents.CallerControl
import Rekuest.Agents.CallerExact
import Rekuest.Agents.CallerForgets
import Rekuest.Agents.CallerStreams
import Rekuest.Agents.CallerTables
import Rekuest.Agents.Delivered
import Rekuest.Agents.Handshake
import Rekuest.Agents.Inquiries
import Rekuest.Agents.Ledger
import Rekuest.Agents.PersistFailures
import Rekuest.Agents.PreviousStates
import Rekuest.Agents.Reporting
import Rekuest.Agents.ResendOrder
import Rekuest.Agents.Restart
import Rekuest.Agents.Resume
import Rekuest.Agents.Retention
import Rekuest.Agents.Settled
import Rekuest.Agents.SharedJournal
import Rekuest.Agents.StateFlush
import Rekuest.Agents.StoreFailures
import Rekuest.Agents.Transport.Ahead
import Rekuest.Agents.Transport.ConnectionTask
import Rekuest.Agents.Transport.Flapping
import Rekuest.Agents.Transport.Flush
import Rekuest.Agents.Transport.Inbound
import Rekuest.Agents.Transport.Reconnect
import Rekuest.Agents.Transport.Sending
import Rekuest.Agents.Transport.Websocket
import Rekuest.Client.Alterations
import Rekuest.Client.Assets
import Rekuest.Client.CallStream
import Rekuest.Client.CancelTime
import Rekuest.Client.Cancelling
import Rekuest.Client.CatchUp
import Rekuest.Client.Completes
import Rekuest.Client.Endings
import Rekuest.Client.FeedLost
import Rekuest.Client.Following
import Rekuest.Client.Forgotten
import Rekuest.Client.Isolation
import Rekuest.Client.Kept
import Rekuest.Client.Postman
import Rekuest.Client.Supplied
import Rekuest.Client.Tables
import Rekuest.Client.Upload
import Rekuest.Lib.AsyncQueue
import Rekuest.Lib.Backfill
import Rekuest.Lib.Coroutine
import Rekuest.Lib.Delivery
import Rekuest.Lib.Dict
import Rekuest.Lib.EventStream
import Rekuest.Lib.Occurrences
import Rekuest.Lib.OrderBy
import Rekuest.Lib.Runs
import Rekuest.Lib.StableMerge
import Rekuest.Lib.Table
import Rekuest.Lib.Unwinding
import Rekuest.Messages
import Rekuest.Scalars
