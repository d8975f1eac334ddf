import CommandLine.Main
import CommandLine.Reading
import CommandLine.Proofs.Reading.Equations
import CommandLine.Proofs.Reading.Steps
import CommandLine.Proofs.Chain
import CommandLine.Proofs.Session.Step
import CommandLine.Proofs.Session.Layout
import CommandLine.Proofs.Session.Progress
import CommandLine.Proofs.Session.Abort
import CommandLine.Proofs.History
import CommandLine.Proofs.Completion
import CommandLine.Proofs.Orders
import CommandLine.Proofs.Reading.Lookahead
import CommandLine.Proofs.Reading.Spelling
import CommandLine.Proofs.Terminator
import CommandLine.Proofs.Cluster
import CommandLine.Proofs.RoundTrip
import CommandLine.Proofs.ArgumentForms
import CommandLine.Proofs.Reading.Match
import CommandLine.Proofs.Session.Match
import CommandLine.Proofs.Delivery
import CommandLine.Proofs.Session.Abreast
import CommandLine.Proofs.Reading.Recovery
import CommandLine.Proofs.Resumption
import CommandLine.Proofs.Session.Advance
import CommandLine.Proofs.Client
import CommandLine.Proofs.FlagCells
import CommandLine.Proofs.Chain.Lookup
import CommandLine.Proofs.Session.Scan
import CommandLine.Proofs.OutcomeCode
import CommandLine.Proofs.Refusal
import CommandLine.Proofs.Firing
import CommandLine.Proofs.Session.OnChain
import CommandLine.Proofs.Extension
import CommandLine.Proofs.Lifecycle
import CommandLine.Proofs.Session.Alongside
import CommandLine.Proofs.StrictOrder
import CommandLine.Proofs.Abbreviation
import CommandLine.Proofs.Reading.Surfacing
import CommandLine.Proofs.Programs
import CommandLine.Proofs.Numeral.Integer
import CommandLine.Proofs.Conversion.Integer
import CommandLine.Proofs.Binary64.Nearest
import CommandLine.Proofs.Numeral.Real
import CommandLine.Proofs.Conversion.Real
import CommandLine.Proofs.Candidates
import CommandLine.Proofs.Chain.Resolution
import CommandLine.Proofs.Chain.Reordering
import CommandLine.Proofs.DeclarationOrder
import CommandLine.Proofs.Remainder
import CommandLine.Proofs.Freshness
import CommandLine.Proofs.Diagnostic
import CommandLine.Proofs.Disclosure
import CommandLine.Proofs.Numeral.Digits
import CommandLine.Proofs.Binary64.Shortest
import CommandLine.Proofs.Display
import CommandLine.Proofs.Comparison
import CommandLine.Proofs.InsideCluster
