import PromptTemplate.Cause
import PromptTemplate.Compile
import PromptTemplate.CompileError
import PromptTemplate.Config
import PromptTemplate.Conversation
import PromptTemplate.Conversation.Builder
import PromptTemplate.Dict
import PromptTemplate.Eval
import PromptTemplate.Expr
import PromptTemplate.Expr.Parser
import PromptTemplate.Host
import PromptTemplate.Host.Standard
import PromptTemplate.Json
import PromptTemplate.Json.Printer
import PromptTemplate.Json.Reader
import PromptTemplate.Node
import PromptTemplate.Node.Parser
import PromptTemplate.Number.Binary
import PromptTemplate.Number.Layout
import PromptTemplate.Number.Numeral
import PromptTemplate.Number.Scaled
import PromptTemplate.Number.Shortest
import PromptTemplate.Parser
import PromptTemplate.Placement
import PromptTemplate.Proofs.Action
import PromptTemplate.Proofs.Conversation.Builder
import PromptTemplate.Proofs.Conversation.Texts
import PromptTemplate.Proofs.Conversation.WellFormed
import PromptTemplate.Proofs.Dict
import PromptTemplate.Proofs.Document.Branches
import PromptTemplate.Proofs.Document.Comment
import PromptTemplate.Proofs.Document.Escaped
import PromptTemplate.Proofs.Document.Excerpts
import PromptTemplate.Proofs.Document.Nesting
import PromptTemplate.Proofs.Document.Prefix
import PromptTemplate.Proofs.Document.Relevance
import PromptTemplate.Proofs.Document.Roundtrip
import PromptTemplate.Proofs.Document.Section
import PromptTemplate.Proofs.Document.Standalone
import PromptTemplate.Proofs.Document.Stream
import PromptTemplate.Proofs.Eval.Calls
import PromptTemplate.Proofs.Eval.Chain
import PromptTemplate.Proofs.Eval.Checked
import PromptTemplate.Proofs.Eval.Closed
import PromptTemplate.Proofs.Eval.Compound
import PromptTemplate.Proofs.Eval.Effects
import PromptTemplate.Proofs.Eval.Located
import PromptTemplate.Proofs.Eval.Paired
import PromptTemplate.Proofs.Expr.Complete
import PromptTemplate.Proofs.Expr.Hull
import PromptTemplate.Proofs.Expr.Located
import PromptTemplate.Proofs.Expr.Nests
import PromptTemplate.Proofs.Expr.Operators
import PromptTemplate.Proofs.Expr.Ordered
import PromptTemplate.Proofs.Expr.Paired
import PromptTemplate.Proofs.Expr.Parts
import PromptTemplate.Proofs.Expr.Phrase
import PromptTemplate.Proofs.Expr.Phrased
import PromptTemplate.Proofs.Expr.Precedence
import PromptTemplate.Proofs.Expr.Reads
import PromptTemplate.Proofs.Expr.Sound
import PromptTemplate.Proofs.Expr.Watched
import PromptTemplate.Proofs.Expr.Whole
import PromptTemplate.Proofs.Expr.Written
import PromptTemplate.Proofs.Json.Quoted
import PromptTemplate.Proofs.Json.Reads
import PromptTemplate.Proofs.Machine
import PromptTemplate.Proofs.Machine.Agreement
import PromptTemplate.Proofs.Machine.Chain
import PromptTemplate.Proofs.Machine.Conservation
import PromptTemplate.Proofs.Machine.Failure
import PromptTemplate.Proofs.Machine.Moves
import PromptTemplate.Proofs.Machine.Nesting
import PromptTemplate.Proofs.Machine.Trace
import PromptTemplate.Proofs.Node.Braces
import PromptTemplate.Proofs.Node.Expressions
import PromptTemplate.Proofs.Node.Heads
import PromptTemplate.Proofs.Node.InStep
import PromptTemplate.Proofs.Node.Kept
import PromptTemplate.Proofs.Node.Located
import PromptTemplate.Proofs.Node.Observed
import PromptTemplate.Proofs.Node.Ordered
import PromptTemplate.Proofs.Node.Paired
import PromptTemplate.Proofs.Node.Shares
import PromptTemplate.Proofs.Node.Sound
import PromptTemplate.Proofs.Node.Tracks
import PromptTemplate.Proofs.Node.Watched
import PromptTemplate.Proofs.Number.Binary
import PromptTemplate.Proofs.Parser.Becomes
import PromptTemplate.Proofs.Parser.Follows
import PromptTemplate.Proofs.Parser.Located
import PromptTemplate.Proofs.Parser.Makes
import PromptTemplate.Proofs.Parser.Ordered
import PromptTemplate.Proofs.Parser.Paired
import PromptTemplate.Proofs.Parser.Reads
import PromptTemplate.Proofs.Parser.Shares
import PromptTemplate.Proofs.Parser.Watched
import PromptTemplate.Proofs.Reference.Bindings
import PromptTemplate.Proofs.Reference.Routes
import PromptTemplate.Proofs.Reference.Static
import PromptTemplate.Proofs.Scope.Alike
import PromptTemplate.Proofs.Scope.Hygiene
import PromptTemplate.Proofs.Scope.Inserted
import PromptTemplate.Proofs.Scope.Touched
import PromptTemplate.Proofs.Scope.Write
import PromptTemplate.Proofs.Span.Place
import PromptTemplate.Proofs.Splice
import PromptTemplate.Proofs.Syntax.Calls
import PromptTemplate.Proofs.Syntax.Erase
import PromptTemplate.Proofs.Syntax.Items
import PromptTemplate.Proofs.Syntax.Layout
import PromptTemplate.Proofs.Syntax.MapSpans
import PromptTemplate.Proofs.Syntax.Names
import PromptTemplate.Proofs.Syntax.Outline
import PromptTemplate.Proofs.Syntax.Spans
import PromptTemplate.Proofs.Syntax.Trees
import PromptTemplate.Proofs.Syntax.Unclosed
import PromptTemplate.Proofs.Syntax.Words
import PromptTemplate.Proofs.Text.Letter
import PromptTemplate.Proofs.Text.Trim
import PromptTemplate.Proofs.Token.Ahead
import PromptTemplate.Proofs.Token.Causes
import PromptTemplate.Proofs.Token.Comment
import PromptTemplate.Proofs.Token.Cover
import PromptTemplate.Proofs.Token.Crossed
import PromptTemplate.Proofs.Token.Cut
import PromptTemplate.Proofs.Token.Embedded
import PromptTemplate.Proofs.Token.Emits
import PromptTemplate.Proofs.Token.Fence
import PromptTemplate.Proofs.Token.Grammar
import PromptTemplate.Proofs.Token.Items
import PromptTemplate.Proofs.Token.Lexed
import PromptTemplate.Proofs.Token.Markup
import PromptTemplate.Proofs.Token.Modes
import PromptTemplate.Proofs.Token.Moved
import PromptTemplate.Proofs.Token.Placed
import PromptTemplate.Proofs.Token.Progress
import PromptTemplate.Proofs.Token.Section
import PromptTemplate.Proofs.Token.Slice
import PromptTemplate.Proofs.Token.Solid
import PromptTemplate.Proofs.Token.StrayBrace
import PromptTemplate.Proofs.Token.Tail
import PromptTemplate.Proofs.Token.Trivia
import PromptTemplate.Proofs.Token.Words
import PromptTemplate.Proofs.Value.Equality
import PromptTemplate.Proofs.Value.Printed
import PromptTemplate.Proofs.Value.Slot
import PromptTemplate.Proofs.Value.Sorted
import PromptTemplate.Proofs.Walk.Branches
import PromptTemplate.Proofs.Walk.Checked
import PromptTemplate.Proofs.Walk.Closed
import PromptTemplate.Proofs.Walk.Flattened
import PromptTemplate.Proofs.Walk.History
import PromptTemplate.Proofs.Walk.Located
import PromptTemplate.Proofs.Walk.Paired
import PromptTemplate.Proofs.Walk.Patterns
import PromptTemplate.Proofs.Walk.Run
import PromptTemplate.Proofs.Walk.Splice
import PromptTemplate.Proofs.Walk.Tags
import PromptTemplate.Proofs.Walk.ToolCalls
import PromptTemplate.Role
import PromptTemplate.Scope
import PromptTemplate.Span
import PromptTemplate.Tag
import PromptTemplate.Text.Alphabetic
import PromptTemplate.Text.Blank
import PromptTemplate.Text.Hex
import PromptTemplate.Text.Letter
import PromptTemplate.Text.Numeric
import PromptTemplate.Token
import PromptTemplate.Token.Lexer
import PromptTemplate.Token.Stream
import PromptTemplate.Value
import PromptTemplate.Value.Equality
import PromptTemplate.Value.Number
import PromptTemplate.Value.Operator
import PromptTemplate.Value.Property
import PromptTemplate.Value.Render
import PromptTemplate.Yaml
import PromptTemplate.Yaml.Cursor
import PromptTemplate.Yaml.Node
import PromptTemplate.Yaml.Node.Parser
import PromptTemplate.Yaml.Scalar.Block
import PromptTemplate.Yaml.Scalar.Meaning
import PromptTemplate.Yaml.Scalar.Plain
import PromptTemplate.Yaml.Scalar.Quoted
import PromptTemplate.Yaml.Tag
import PromptTemplate.Yaml.Token
import PromptTemplate.Yaml.Token.Scanner
import PromptTemplate.Yaml.Token.Tag
