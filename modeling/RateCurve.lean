import RateCurve.Number
import RateCurve.Exponential
import RateCurve.Decimal.Shortest
import RateCurve.Decimal.Fixed
import RateCurve.Decimal.Numeral
import RateCurve.Json.Reader
import RateCurve.Json.Writer
import RateCurve.Validation.Rules
import RateCurve.Fault
import RateCurve.Curve
import RateCurve.Graph
import RateCurve.EventLog
import RateCurve.Query
import RateCurve.Settings
import RateCurve.Clock
import RateCurve.Session
import RateCurve.Service
import RateCurve.Watch
import RateCurve.Trace
import RateCurve.Main
import RateCurve.Proofs.Curve.Exact
import RateCurve.Proofs.Curve.Gather
import RateCurve.Proofs.Curve.Failure
import RateCurve.Proofs.Curve.Visible
import RateCurve.Proofs.Curve.Superposition
import RateCurve.Proofs.Curve.Unimodal
import RateCurve.Proofs.Curve.Coverage
import RateCurve.Proofs.Graph.Scale
import RateCurve.Proofs.Graph.Comparison
import RateCurve.Proofs.EventLog.Account
import RateCurve.Proofs.EventLog.Visibility
import RateCurve.Proofs.EventLog.Forgetting
import RateCurve.Proofs.Service.Availability
import RateCurve.Proofs.Session.Delivery
import RateCurve.Proofs.Session.LifeCycle
import RateCurve.Proofs.Service.Ingestion
import RateCurve.Proofs.Service.Repeat
import RateCurve.Proofs.Service.Reporting
import RateCurve.Proofs.Watch.Line
