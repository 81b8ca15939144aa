import Dinkster.Collab.History
import Dinkster.Compile.Recompute
import Dinkster.Collab.Service
import Dinkster.Collab.Publication
import Dinkster.Topology.Exact
import Dinkster.Junction.Loops
import Dinkster.Extensions.Runs
import Dinkster.Collab.Reuse
import Dinkster.Boundary.Crossing
import Dinkster.Boundary.Inherit
import Dinkster.Expression.Exact
import Dinkster.Commands.Recycling
import Dinkster.Expression.Quotient
import Dinkster.Expression.Scalar
import Dinkster.Image.Revisions
import Dinkster.Replace.Views
import Dinkster.Widgets.Meet
import Dinkster.Image.Limits
import Dinkster.Boundary.Slots
import Dinkster.Execution.Logs
import Dinkster.Execution.Verdicts
import Dinkster.Layout.Resolution
import Dinkster.Workspace.Windows
import Dinkster.Editor.Repair
import Dinkster.Loops.Pairs
import Dinkster.Mirror.Least
import Dinkster.Commands.TextSplice
import Dinkster.Commands.Builder
import Dinkster.Collab.Presence
import Dinkster.Search.Ranking
import Dinkster.Format.TypeIds
import Dinkster.Commands.Identity
import Dinkster.Commands.Nets
import Dinkster.Format.Canonical
import Dinkster.Compile.NativeCycles
import Dinkster.Execution.Reconcile
