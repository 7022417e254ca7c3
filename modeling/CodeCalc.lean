import CodeCalc.Lib.Dict
import CodeCalc.Lib.Effect
import CodeCalc.Python
import CodeCalc.Errors
import CodeCalc.Errors.Inference
import CodeCalc.Supervision.Admission
import CodeCalc.Supervision.Settlement
import CodeCalc.Supervision.Workdir
import CodeCalc.Supervision.Retention
import CodeCalc.Supervision.StartFailure
import CodeCalc.Supervision.Waiting
import CodeCalc.Supervision.Polling
import CodeCalc.Supervision.Recovery
import CodeCalc.Supervision.SharedJournal
import CodeCalc.Lib.Base64
import CodeCalc.Lib.JsonText
import CodeCalc.SpecIdentity.Encoding
import CodeCalc.SpecIdentity.Content
import CodeCalc.SpecIdentity.Faithful
import CodeCalc.Lib.Fraction
import CodeCalc.Exact.Screen
import CodeCalc.Exact.Evaluator
import CodeCalc.Exact.Meaning
import CodeCalc.Exact.Soundness
import CodeCalc.Exact.Radix
import CodeCalc.Lib.FixedWidth
import CodeCalc.Lib.Decimal
import CodeCalc.Exact.BitOps
import CodeCalc.Exact.FloatRepr
import CodeCalc.Lib.NumberText
import CodeCalc.Exact.Percent
import CodeCalc.Exact.Threshold
import CodeCalc.Exact.Calculators
import CodeCalc.Logic.TruthTable
import CodeCalc.Benchmark.Estimate
import CodeCalc.Lib.Sweep
import CodeCalc.Optimization.Extract
import CodeCalc.Optimization.Generic
import CodeCalc.Logic.Printing
import CodeCalc.Output.Split
import CodeCalc.Output.Paths
import CodeCalc.Lib.Assignment
import CodeCalc.Logic.BoolParser
import CodeCalc.Lib.Utf8
import CodeCalc.Executor.Run
import CodeCalc.Output.Spill
import CodeCalc.Executor.Exits
import CodeCalc.Strict.Service
import CodeCalc.Strict.Requests
import CodeCalc.Strict.Admission
import CodeCalc.Translation.Comparison
import CodeCalc.Translation.Tolerance
import CodeCalc.Translation.Verify
import CodeCalc.Translation.EdgeCases
import CodeCalc.Lib.JsonCodec
import CodeCalc.Lib.JsonRoundTrip
import CodeCalc.Tracing.Hostile
import CodeCalc.Tracing.Parser
import CodeCalc.Tracing.Harness
import CodeCalc.Tracing.RoundTrip
import CodeCalc.SafeExpr.Pipeline
import CodeCalc.Lib.Double
import CodeCalc.Stats.MannWhitney
import CodeCalc.Optimization.Timing
import CodeCalc.Optimization.Verdict
import CodeCalc.Optimization.Supported
import CodeCalc.Lib.House
import CodeCalc.SafeExpr.Magnitude
import CodeCalc.Lib.Bpf
import CodeCalc.Platform.Seccomp
import CodeCalc.Platform.Spawn
import CodeCalc.Platform.CommandLine
import CodeCalc.Platform.Landlock
import CodeCalc.Strict.History
import CodeCalc.Strict.GVisor
import CodeCalc.Strict.Traces
import CodeCalc.Lib.Threads
import CodeCalc.Sessions.Server
import CodeCalc.Sessions.Operations
import CodeCalc.Sessions.Busy
import CodeCalc.Sessions.Expiry
import CodeCalc.Sessions.Replace
import CodeCalc.Sessions.Cleanup
import CodeCalc.Lib.Directory
import CodeCalc.Sessions.Snapshot
import CodeCalc.Http.Address
import CodeCalc.Http.Serve
import CodeCalc.Lib.Substitute
import CodeCalc.Audit.Emit
import CodeCalc.Audit.Line
import CodeCalc.Audit.Redaction
import CodeCalc.Sessions.Extraction
import CodeCalc.Sessions.Quota
import CodeCalc.Sessions.Inline
import CodeCalc.Lib.Inodes
import CodeCalc.Sessions.Paths
import CodeCalc.Sessions.Unlink
import CodeCalc.Sessions.Worker
import CodeCalc.Gateway.Capabilities
import CodeCalc.Gateway.Dependencies
import CodeCalc.Lib.Merge
import CodeCalc.Gateway.Specs
import CodeCalc.Gateway.Service
import CodeCalc.Gateway.Gate
import CodeCalc.Gateway.Fetch
import CodeCalc.Gateway.Enforcement
import CodeCalc.Lib.Log
import CodeCalc.Lib.RankSum
import CodeCalc.Lib.Chunks
import CodeCalc.Executor.Stream
import CodeCalc.Lib.Echo
import CodeCalc.Providers.Payload
import CodeCalc.Providers.Piston
import CodeCalc.Providers.Noninterference
import CodeCalc.Complexity.Analyze
import CodeCalc.Audit.Rotation
import CodeCalc.Output.Limits
import CodeCalc.Middleware.Redaction
import CodeCalc.Lib.Wrapping
import CodeCalc.Runtimes.Checkers
import CodeCalc.Runtimes.Status
import CodeCalc.Runtimes.Doctor
import CodeCalc.Lib.CoprimeBase
import CodeCalc.SafeExpr.Refinement
import CodeCalc.Lib.Harmonic
import CodeCalc.SafeExpr.Growth
import CodeCalc.SafeExpr.Harmonic
import CodeCalc.Lib.Sequences
import CodeCalc.SafeExpr.Envelopes
import CodeCalc.SafeExpr.Printed
import CodeCalc.Lib.JsonFloat
import CodeCalc.Lib.JsonTree
import CodeCalc.Lib.JsonIndent
import CodeCalc.Lib.JsonLiteral
import CodeCalc.Lib.TextFile
import CodeCalc.Setup.Config
import CodeCalc.Setup.Merge
import CodeCalc.Setup.Preservation
import CodeCalc.Lib.JsonPrefix
import CodeCalc.Guarded.Call
import CodeCalc.Guarded.Answers
import CodeCalc.Lib.Rose
import CodeCalc.Complexity.Parsing
import CodeCalc.Packages.Specs
import CodeCalc.Packages.Install
import CodeCalc.Packages.Containment
import CodeCalc.Packages.Confirmation
