import Formwork.BlockTree
import Formwork.Files.Tree
import Formwork.Main
import Formwork.Options.Json
import Formwork.Proofs.Arguments
import Formwork.Proofs.BlockTree.Contents
import Formwork.Proofs.BlockTree.Failures
import Formwork.Proofs.BlockTree.Mirror
import Formwork.Proofs.BlockTree.Renewal
import Formwork.Proofs.BlockTree.Shape
import Formwork.Proofs.Building
import Formwork.Proofs.Cutout.Calls
import Formwork.Proofs.Cutout.Safety
import Formwork.Proofs.Cutout.Streaming
import Formwork.Proofs.Expander.Ends
import Formwork.Proofs.Expander.MadeNames
import Formwork.Proofs.Expander.Nesting
import Formwork.Proofs.Filtering
import Formwork.Proofs.Include.Cycles
import Formwork.Proofs.Include.Dropped
import Formwork.Proofs.Include.Ends
import Formwork.Proofs.Include.Modules
import Formwork.Proofs.Include.Quiet
import Formwork.Proofs.Json
import Formwork.Proofs.Likeness.Comments
import Formwork.Proofs.Likeness.Layout
import Formwork.Proofs.Pipeline.Independent
import Formwork.Proofs.Pipeline.Placement
import Formwork.Proofs.Pipeline.Untouched
import Formwork.Proofs.Provenance.CallSites
import Formwork.Proofs.Provenance.Chains
import Formwork.Proofs.Provenance.Labels
import Formwork.Proofs.References.Calls
import Formwork.Proofs.References.Complete
import Formwork.Proofs.Resolver.Decisions
import Formwork.Proofs.Resolver.Exchange
import Formwork.Proofs.Resolver.Failures
import Formwork.Proofs.Scan.Accepts
import Formwork.Proofs.Scan.Endings
import Formwork.Proofs.Scan.Lines
import Formwork.Proofs.Scan.Locations
import Formwork.Proofs.Scan.RoundTrip
import Formwork.Proofs.Template.Placeholders
