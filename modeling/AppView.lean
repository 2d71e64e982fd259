import AppView.Http.ContentLength
import AppView.Http.Responses
import AppView.Http.Reassembly
import AppView.Metrics.Connections
import AppView.Metrics.Bytes
import AppView.Metrics.Totals
import AppView.Metrics.Deltas
import AppView.Metrics.Gauges
import AppView.Rules.Sections
import AppView.CircBuf
import AppView.LinkList
import AppView.Ipc.Request
import AppView.Ipc.Credentials
import AppView.Http2.Directions
import AppView.Http2.Bounds
import AppView.Http.Pairing
import AppView.Http.Duplicates
import AppView.Payload.RoundTrip
import AppView.Statsd.Recapture
import AppView.Http.Store
import AppView.Attach
import AppView.Signals
import AppView.Oci
import AppView.Java.Edits
import AppView.Logs
import AppView.Protocols
import AppView.Service
import AppView.Events
import AppView.EvtFormat
import AppView.Url
import AppView.Sessions
import AppView.Dbg
import AppView.Dns
import AppView.StackPool
import AppView.Periodic
import AppView.Backoff
