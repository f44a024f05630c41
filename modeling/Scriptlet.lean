import Scriptlet.Arithmetic
import Scriptlet.Command
import Scriptlet.Diagnostic
import Scriptlet.EvalError
import Scriptlet.Evaluation
import Scriptlet.Flags
import Scriptlet.Host
import Scriptlet.Log
import Scriptlet.LowerCase
import Scriptlet.Machine
import Scriptlet.Main
import Scriptlet.NameMap
import Scriptlet.NodeTable
import Scriptlet.Number.Shortest
import Scriptlet.Palette
import Scriptlet.Path
import Scriptlet.Printable
import Scriptlet.Proofs.Authentic
import Scriptlet.Proofs.Balance
import Scriptlet.Proofs.Blame
import Scriptlet.Proofs.Blame.Sources
import Scriptlet.Proofs.Braces
import Scriptlet.Proofs.Calls
import Scriptlet.Proofs.Chains
import Scriptlet.Proofs.CurrentScope
import Scriptlet.Proofs.Decimals
import Scriptlet.Proofs.Deeds
import Scriptlet.Proofs.Deeds.Evaluation
import Scriptlet.Proofs.Deeds.Followed
import Scriptlet.Proofs.Dispatch
import Scriptlet.Proofs.Entries
import Scriptlet.Proofs.Environments
import Scriptlet.Proofs.Forms
import Scriptlet.Proofs.Grammar
import Scriptlet.Proofs.Grammar.Completeness
import Scriptlet.Proofs.Grammar.Outcomes
import Scriptlet.Proofs.Grammar.Reading
import Scriptlet.Proofs.Grammar.Usage
import Scriptlet.Proofs.Histories
import Scriptlet.Proofs.Identities
import Scriptlet.Proofs.Identities.Sessions
import Scriptlet.Proofs.Initializers
import Scriptlet.Proofs.Integers
import Scriptlet.Proofs.Isolation
import Scriptlet.Proofs.Joining
import Scriptlet.Proofs.Lexemes
import Scriptlet.Proofs.Lexical
import Scriptlet.Proofs.Lexical.Assignments
import Scriptlet.Proofs.Lexical.Budgets
import Scriptlet.Proofs.Lexical.Distances
import Scriptlet.Proofs.Lexical.Loops
import Scriptlet.Proofs.Lexical.Names
import Scriptlet.Proofs.Lexical.Sessions
import Scriptlet.Proofs.Lexical.Simulation
import Scriptlet.Proofs.Lexical.Steps
import Scriptlet.Proofs.Lexical.World
import Scriptlet.Proofs.Likeness
import Scriptlet.Proofs.LookUps
import Scriptlet.Proofs.MethodLookup
import Scriptlet.Proofs.Numerals
import Scriptlet.Proofs.Occurrences
import Scriptlet.Proofs.Offsets
import Scriptlet.Proofs.Origins
import Scriptlet.Proofs.Origins.Evaluation
import Scriptlet.Proofs.Origins.Rooted
import Scriptlet.Proofs.Origins.Runs
import Scriptlet.Proofs.Origins.Steps
import Scriptlet.Proofs.Pieces
import Scriptlet.Proofs.Positions
import Scriptlet.Proofs.Readability
import Scriptlet.Proofs.Readers
import Scriptlet.Proofs.References
import Scriptlet.Proofs.Rejection
import Scriptlet.Proofs.Relocation
import Scriptlet.Proofs.Relocation.Evaluation
import Scriptlet.Proofs.Relocation.Identity
import Scriptlet.Proofs.Relocation.Machine
import Scriptlet.Proofs.Relocation.Resolution
import Scriptlet.Proofs.Returns
import Scriptlet.Proofs.Scanning
import Scriptlet.Proofs.Scoping
import Scriptlet.Proofs.Scoping.Resolved
import Scriptlet.Proofs.Scoping.Sources
import Scriptlet.Proofs.Scoping.Walk
import Scriptlet.Proofs.Searches
import Scriptlet.Proofs.Segmentation
import Scriptlet.Proofs.Uninitialized
import Scriptlet.Proofs.Verdicts
import Scriptlet.Proofs.Visits
import Scriptlet.Proofs.Writes
import Scriptlet.Proofs.Writes.Evaluation
import Scriptlet.Proofs.Writes.Recorded
import Scriptlet.Quoted
import Scriptlet.Repl
import Scriptlet.Repl.Entry
import Scriptlet.Resolution
import Scriptlet.Scalar
import Scriptlet.Session
import Scriptlet.Settings
import Scriptlet.Stamp
import Scriptlet.Store
import Scriptlet.Token.Scan
import Scriptlet.Tree
import Scriptlet.Tree.Parser
import Scriptlet.Tree.Printer
import Scriptlet.Value
import Scriptlet.Yaml.Fault
import Scriptlet.Yaml.Node
import Scriptlet.Yaml.Node.Parser
import Scriptlet.Yaml.Tag
import Scriptlet.Yaml.Text
import Scriptlet.Yaml.Token
import Scriptlet.Yaml.Token.Property
import Scriptlet.Yaml.Token.Scalar
import Scriptlet.Yaml.Token.Scan
