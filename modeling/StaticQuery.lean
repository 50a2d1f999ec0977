import StaticQuery.Compile.Direct
import StaticQuery.Compile.Query
import StaticQuery.Plan.Source
import StaticQuery.Plan.Stock
import StaticQuery.Run.Evaluate
import StaticQuery.Options.Yaml
import StaticQuery.Proofs.Compile.Acceptance
import StaticQuery.Proofs.Compile.Classification
import StaticQuery.Proofs.Plan.Quoting
import StaticQuery.Proofs.Run.Capability
import StaticQuery.Proofs.Run.Failure
import StaticQuery.Proofs.OrderedMap
import StaticQuery.Proofs.Compile.Isolation
import StaticQuery.Proofs.Plan.Registration
import StaticQuery.Proofs.Run.Scoping
import StaticQuery.Proofs.Run.Shape
import StaticQuery.Proofs.Compile.Editing
import StaticQuery.Proofs.Compile.Pruning
import StaticQuery.Proofs.Run.ResolveInfo
import StaticQuery.Proofs.Run.Aliases
import StaticQuery.Proofs.Run.LeafResults
import StaticQuery.Proofs.Compile.Coordinates
import StaticQuery.Proofs.Compile.Nesting
import StaticQuery.Proofs.Run.Coordinates
import StaticQuery.Proofs.Compile.Arguments
import StaticQuery.Proofs.Compile.DirectiveOrder
import StaticQuery.Proofs.Run.Arguments
import StaticQuery.Proofs.Json.RoundTrip
import StaticQuery.Proofs.Plan.Layout
import StaticQuery.Proofs.Run.Response
import StaticQuery.Proofs.Compile.Steps
import StaticQuery.Proofs.Compile.Alignment
import StaticQuery.Proofs.Compile.Locality
