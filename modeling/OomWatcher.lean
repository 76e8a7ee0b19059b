import OomWatcher.Foundation.Dictionary
import OomWatcher.Foundation.MetricVec
import OomWatcher.Foundation.Machine
import OomWatcher.Foundation.Reflector
import OomWatcher.Foundation.Text
import OomWatcher.Events
import OomWatcher.Tracepoint.Preflight
import OomWatcher.Tracepoint.Grammar
import OomWatcher.Tracepoint.NodeCheck
import OomWatcher.Source.Delivery
import OomWatcher.Metrics.Deletion
import OomWatcher.Metrics.ConcurrentSweep
import OomWatcher.Metrics.Conservation
import OomWatcher.Metrics.Cardinality
import OomWatcher.Metrics.Linearization
import OomWatcher.Metrics.RepeatedSweep
import OomWatcher.Metrics.SteppedClock
import OomWatcher.Watch.Accounting
import OomWatcher.Watch.DropTotals
import OomWatcher.Watch.Heartbeat
import OomWatcher.Kubernetes.Departures
import OomWatcher.Kubernetes.Resolution
import OomWatcher.Kubernetes.LiveList
import OomWatcher.Kubernetes.Matching
import OomWatcher.Kubernetes.Candidates
import OomWatcher.Kubernetes.Reaping
import OomWatcher.Watch.Attribution
import OomWatcher.Watch.Process
import OomWatcher.Watch.Draining
import OomWatcher.Watch.Footprint
import OomWatcher.Watch.Run
import OomWatcher.Watch.Totals
