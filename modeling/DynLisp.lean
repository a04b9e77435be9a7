import DynLisp.Main
import DynLisp.Proofs.Parser.Blame
import DynLisp.Proofs.Session.Growth
import DynLisp.Proofs.Session.Join
import DynLisp.Proofs.Session.Midway
import DynLisp.Proofs.Session.Order
import DynLisp.Proofs.Session.Range
import DynLisp.Proofs.Shell.Run
import DynLisp.Proofs.Evaluation.Calls
import DynLisp.Proofs.Evaluation.Relevance
import DynLisp.Proofs.Evaluation.Limit
import DynLisp.Proofs.Evaluation.Nesting
import DynLisp.Proofs.Session.Paths
import DynLisp.Proofs.Session.Continuation
import DynLisp.Proofs.Session.Locations
import DynLisp.Proofs.Report.Diagnosis
import DynLisp.Proofs.Brackets
import DynLisp.Proofs.Environment.Blocks
import DynLisp.Proofs.Environment.Operations
import DynLisp.Proofs.Session.File
import DynLisp.Proofs.Outline.Faithful
import DynLisp.Proofs.Parser.Progress
import DynLisp.Proofs.Parser.Loops
import DynLisp.Proofs.Session.Loops
