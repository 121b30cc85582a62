import Bulldog.Adversary.Swarms
import Bulldog.Advice
import Bulldog.Anchor.Agreement
import Bulldog.Anchor.NormalForm
import Bulldog.Approval.Clock
import Bulldog.Approval.Counters
import Bulldog.Approval.Signature
import Bulldog.Approval.Trail
import Bulldog.Audit.Agreement
import Bulldog.Audit.Crash
import Bulldog.Audit.FailClosed
import Bulldog.Audit.RelayAgreement
import Bulldog.Audit.RelayStream
import Bulldog.Audit.SessionRefinement
import Bulldog.Canonicalizer.Sensitive
import Bulldog.Containment
import Bulldog.Dispatch.Binding
import Bulldog.Dispatch.Conformance
import Bulldog.Dispatch.Egress
import Bulldog.Dispatch.Permits
import Bulldog.Domain.Atomicity
import Bulldog.Firmware.Diagnostic
import Bulldog.Governed.WorkLog
import Bulldog.Microvm.Completion
import Bulldog.Microvm.Order
import Bulldog.MultiAgent.CanaryText
import Bulldog.MultiAgent.System
import Bulldog.MultiAgent.Tokens
import Bulldog.Policy.Monotone
import Bulldog.Release.RoundTrip
import Bulldog.Sandbox.Bootstrap
import Bulldog.Sandbox.Output
import Bulldog.Secrets.LineReader
import Bulldog.Session.Recovery
import Bulldog.Trace.Refinement
import Bulldog.Workspace.Copy
import Bulldog.Workspace.Scan
