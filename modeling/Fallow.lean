import Fallow.Supervisor.Custody
import Fallow.Preempt.PythonAgent
import Fallow.Preempt.GoAgent
import Fallow.Preempt.Trace
import Fallow.Queue.Atomic
import Fallow.App.Serializable
import Fallow.Registry.EnrollRun
import Fallow.App.PresenceFence
import Fallow.Relay.Rendezvous
import Fallow.App.FailureReport
import Fallow.Gateway.Balance
import Fallow.Gateway.RequestLog
import Fallow.Queue.Leases
import Fallow.Queue.Timestamps
import Fallow.Registry.Presence
import Fallow.App.Speculation
import Fallow.Standby.Export
import Fallow.Rag.History
import Fallow.Ingest.UnitInputs
import Fallow.Gateway.Admission
import Fallow.Mesh.Bandwidth
import Fallow.Mesh.Bundles
import Fallow.Mesh.Fallback
import Fallow.Mesh.Merkle
import Fallow.ModelCache.Twins
import Fallow.Runtime.Availability
import Fallow.Runtime.Sequence
import Fallow.SiteClient.Surrogates
