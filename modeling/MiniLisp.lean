import MiniLisp.Host.Workspace
import MiniLisp.Main
import MiniLisp.Proofs.Form.RoundTrip
import MiniLisp.Proofs.Semantics.Adequacy
import MiniLisp.Proofs.Token.Segmentation
import MiniLisp.Proofs.Eval.Logic
import MiniLisp.Proofs.Machine.Realm
import MiniLisp.Proofs.Eval.Confinement
import MiniLisp.Proofs.Scope.Persistence
import MiniLisp.Proofs.Eval.Termination
import MiniLisp.Proofs.Machine.Relaxation
import MiniLisp.Proofs.Eval.DepthLimit
import MiniLisp.Proofs.Access.Builtin
import MiniLisp.Proofs.Access.Eval
import MiniLisp.Proofs.Reader.Completion
import MiniLisp.Proofs.Repl.Completion
import MiniLisp.Proofs.Fault.Raised
import MiniLisp.Proofs.Fault.Taxonomy
import MiniLisp.Proofs.Form.Free
import MiniLisp.Proofs.Semantics.Scoping
import MiniLisp.Proofs.Arithmetic.Expression
import MiniLisp.Proofs.Arithmetic.Exactness
import MiniLisp.Proofs.Reader.Lexemes
import MiniLisp.Proofs.Semantics.Sameness
import MiniLisp.Proofs.Interpreter.Lexemes
import MiniLisp.Proofs.Interpreter.Independence
import MiniLisp.Proofs.Repl.Grouping
import MiniLisp.Proofs.Repl.Script
import MiniLisp.Proofs.Reader.Calls
import MiniLisp.Proofs.Reader.Detection
import MiniLisp.Proofs.Reader.Resumption
import MiniLisp.Proofs.Semantics.Erasure
import MiniLisp.Proofs.Eval.Lockstep
import MiniLisp.Proofs.Eval.AppliedLambda
import MiniLisp.Proofs.Eval.Literal
import MiniLisp.Proofs.Eval.Surroundings
import MiniLisp.Proofs.Eval.Law
import MiniLisp.Proofs.Eval.EscapedFunction
import MiniLisp.Proofs.Trace.Nesting
import MiniLisp.Proofs.Eval.Tracing
import MiniLisp.Proofs.Token.Place
import MiniLisp.Proofs.Form.Layout
import MiniLisp.Proofs.Text.Encoding
import MiniLisp.Proofs.Token.Rescan
import MiniLisp.Proofs.Builtin.Sum
import MiniLisp.Proofs.Arithmetic.Functions
import MiniLisp.Proofs.Value.Equality
import MiniLisp.Proofs.Machine.Ledger
import MiniLisp.Proofs.Host.Ledger
import MiniLisp.Proofs.Host.Congruence
import MiniLisp.Proofs.Scope.Visibility
import MiniLisp.Proofs.Reader.Misuse
import MiniLisp.Proofs.Repl.Conservation
import MiniLisp.Proofs.Token.OneLine
import MiniLisp.Proofs.Repl.Recall
import MiniLisp.Proofs.Eval.Exhaustion
import MiniLisp.Proofs.Host.Recursion
