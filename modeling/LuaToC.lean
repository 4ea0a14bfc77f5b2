import LuaToC.Bytecode.Constant
import LuaToC.Bytecode.Instruction
import LuaToC.Bytecode.LineTable
import LuaToC.Bytecode.Opcode
import LuaToC.Bytecode.Prototype
import LuaToC.Cbor.Item
import LuaToC.Cbor.Reader
import LuaToC.Chunk.Format
import LuaToC.Chunk.Reader
import LuaToC.Chunk.Varint
import LuaToC.Chunk.Writer
import LuaToC.Command.Flags
import LuaToC.Command.ModuleName
import LuaToC.Command.Run
import LuaToC.Config
import LuaToC.Contract.Basic
import LuaToC.Contract.Encoding
import LuaToC.Decimal.Binary64
import LuaToC.Decimal.FloatText
import LuaToC.Decimal.Shortest
import LuaToC.Digest.Block
import LuaToC.Digest.NameUuid
import LuaToC.Digest.Sha1
import LuaToC.Digest.Sha256
import LuaToC.Host.Basic
import LuaToC.Host.Machine
import LuaToC.Host.Process
import LuaToC.Host.System
import LuaToC.Loaded
import LuaToC.Main
import LuaToC.Path
import LuaToC.Proofs.Bytecode.Fields
import LuaToC.Proofs.Bytecode.LineTable
import LuaToC.Proofs.Cbor.Canonical
import LuaToC.Proofs.Chunk.Canonical
import LuaToC.Proofs.Chunk.Delimited
import LuaToC.Proofs.Chunk.Overflow
import LuaToC.Proofs.Chunk.Reading
import LuaToC.Proofs.Chunk.Requests
import LuaToC.Proofs.Chunk.RoundTrip
import LuaToC.Proofs.Chunk.Varint
import LuaToC.Proofs.Chunk.VarintWords
import LuaToC.Proofs.Command.ModuleName
import LuaToC.Proofs.Command.Saving
import LuaToC.Proofs.Command.Transaction
import LuaToC.Proofs.Config.Nearest
import LuaToC.Proofs.Contract.BuildId
import LuaToC.Proofs.Contract.Fingerprint
import LuaToC.Proofs.Contract.Serialisation
import LuaToC.Proofs.Contract.Verification
import LuaToC.Proofs.Decimal.Literal
import LuaToC.Proofs.Decimal.RoundTrip
import LuaToC.Proofs.Decimal.Rounding
import LuaToC.Proofs.Except
import LuaToC.Proofs.Host.Files
import LuaToC.Proofs.Host.System
import LuaToC.Proofs.Host.Temporary
import LuaToC.Proofs.Numbering
import LuaToC.Proofs.Numeral
import LuaToC.Proofs.Path
import LuaToC.Proofs.Text.CLiteral
import LuaToC.Proofs.Traversal
import LuaToC.Proofs.Tree
import LuaToC.Proofs.Unit.Alignment
import LuaToC.Proofs.Unit.BranchErrors
import LuaToC.Proofs.Unit.Branches
import LuaToC.Proofs.Unit.CText
import LuaToC.Proofs.Unit.ControlFlow
import LuaToC.Proofs.Unit.Coverage
import LuaToC.Proofs.Unit.DebugInfo
import LuaToC.Proofs.Unit.EmbeddedSource
import LuaToC.Proofs.Unit.Outcome
import LuaToC.Proofs.Unit.Records
import LuaToC.Proofs.Unit.StatementText
import LuaToC.Proofs.Words
import LuaToC.Shell.Arithmetic
import LuaToC.Shell.Builtin
import LuaToC.Shell.Condition
import LuaToC.Shell.Editor
import LuaToC.Shell.Expansion
import LuaToC.Shell.FileTool
import LuaToC.Shell.Format
import LuaToC.Shell.Grammar
import LuaToC.Shell.Parser
import LuaToC.Shell.Pattern
import LuaToC.Shell.Program
import LuaToC.Shell.Regex
import LuaToC.Shell.Run
import LuaToC.Shell.Search
import LuaToC.Shell.Session
import LuaToC.Shell.TextTool
import LuaToC.Shell.Token
import LuaToC.Shell.Tool
import LuaToC.Text.Blank
import LuaToC.Text.Bytes
import LuaToC.Text.CLiteral
import LuaToC.Text.Printable
import LuaToC.Text.Quoted
import LuaToC.Text.Utf8
import LuaToC.Toml.Document
import LuaToC.Toml.Reader
import LuaToC.Toml.Scalar
import LuaToC.Toml.Text
import LuaToC.Toml.Value
import LuaToC.Unit.Annotation
import LuaToC.Unit.Branch
import LuaToC.Unit.Compile
import LuaToC.Unit.Compiler
import LuaToC.Unit.Entry
import LuaToC.Unit.FunctionText
import LuaToC.Unit.Listing
import LuaToC.Unit.Options
import LuaToC.Unit.Statements
