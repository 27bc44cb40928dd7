import Tysel.Verification.Durable.Receipts
import Tysel.Verification.Durable.Admission
import Tysel.Verification.Durable.Leases
import Tysel.Verification.Durable.Retention
import Tysel.Verification.Durable.Migration
import Tysel.Verification.Engine.Stranding
import Tysel.Verification.Engine.RetryReplay
import Tysel.Verification.Engine.Values
import Tysel.Verification.Tasks.Outcomes
import Tysel.Verification.Tasks.Service
import Tysel.Verification.Web.Events
import Tysel.Verification.Web.Requests
import Tysel.Verification.Tasks.Ingress
import Tysel.Verification.Tasks.Framing
import Tysel.Verification.Tasks.Mcp
import Tysel.Verification.Fetch.Credentials
import Tysel.Verification.Fetch.Redirects
import Tysel.Verification.Isolate.Separation
import Tysel.Verification.Isolate.Response
import Tysel.Verification.Isolate.Streams
import Tysel.Verification.Isolate.Transparency
import Tysel.Verification.Isolate.Watchdog
import Tysel.Verification.Isolate.Blocking
import Tysel.Verification.Server.Http
import Tysel.Verification.Component.Authority
import Tysel.Verification.Component.Filesystem
import Tysel.Verification.Package.Tap
import Tysel.Verification.Runtime.Failures
import Tysel.Verification.Runtime.Polling
import Tysel.Verification.Release.Lock
import Tysel.Verification.Release.Authenticity
import Tysel.Verification.Release.Activation
import Tysel.Verification.Release.Messages
import Tysel.Verification.Build.Image
import Tysel.Verification.Build.Literals
import Tysel.Verification.Runtime.Plane
