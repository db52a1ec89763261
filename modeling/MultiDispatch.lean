import MultiDispatch.Dispatch.Dispatchable
import MultiDispatch.Main
import MultiDispatch.Plan.CombinationSet
import MultiDispatch.Proofs.Alternatives
import MultiDispatch.Proofs.Constraint.Semilattice
import MultiDispatch.Proofs.Dispatch.Dominance
import MultiDispatch.Proofs.Dispatch.Introspection
import MultiDispatch.Proofs.Label.Combination
import MultiDispatch.Proofs.Label.Identifier
import MultiDispatch.Proofs.Manifest.CallSites
import MultiDispatch.Proofs.Manifest.Concatenation
import MultiDispatch.Proofs.Manifest.Defaults
import MultiDispatch.Proofs.Manifest.Printing
import MultiDispatch.Proofs.Manifest.Spacing
import MultiDispatch.Proofs.Manifest.Spans
import MultiDispatch.Proofs.Plan.Assembly
import MultiDispatch.Proofs.Plan.Saturation
import MultiDispatch.Proofs.Plan.Partition
import MultiDispatch.Proofs.Plan.Skipping
import MultiDispatch.Proofs.Registry.Activation
import MultiDispatch.Proofs.Registry.Misses
import MultiDispatch.Proofs.Registry.Sending
import MultiDispatch.Proofs.Registry.Strategies
import MultiDispatch.Proofs.Settings.Nearest
import MultiDispatch.Proofs.Value.IntegerViews
import MultiDispatch.Registry
import MultiDispatch.Value.Numeric
