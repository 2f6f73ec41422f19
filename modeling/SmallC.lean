import SmallC.Main
import SmallC.Command.Directory
import SmallC.Proofs.Calls.Agreement
import SmallC.Proofs.Derivations.Recognition
import SmallC.Proofs.Execution.Functions
import SmallC.Proofs.Assembly.Labels
import SmallC.Proofs.Nesting.Limit
import SmallC.Proofs.Parallel.Forms
import SmallC.Proofs.Parallel.Generation
import SmallC.Proofs.Scoping.Naming
import SmallC.Proofs.Words.Computation
import SmallC.Proofs.Floating.Paths
import SmallC.Proofs.Frames.Framing
import SmallC.Proofs.Parallel.Raising
import SmallC.Proofs.Assembly.Strings
import SmallC.Proofs.Renaming.Units
import SmallC.Proofs.Typing.Verdicts
import SmallC.Proofs.Definitions.Storage
import SmallC.Proofs.Tables.Refinement
import SmallC.Proofs.Context.Restoration
import SmallC.Proofs.Assembly.Prefixing
import SmallC.Proofs.Report.Carets
import SmallC.Proofs.Numbers.Widening
import SmallC.Proofs.Numbers.Conditions
import SmallC.Proofs.Source.Comments
import SmallC.Proofs.Typing.Casts
import SmallC.Proofs.Typing.Storage
import SmallC.Proofs.Report.Undeclared
import SmallC.Proofs.Source.Layout
import SmallC.Proofs.Breaks.Agreement
import SmallC.Proofs.Refusals.Sentences
import SmallC.Proofs.Report.Order
import SmallC.Proofs.Typing.Symmetry
import SmallC.Proofs.Report.Splitting
import SmallC.Proofs.Respelling.Units
import SmallC.Proofs.Frames.Bookkeeping
import SmallC.Proofs.Sizes.Units
