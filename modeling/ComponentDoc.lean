import ComponentDoc.Cli.Arguments
import ComponentDoc.Cli.LogFilter
import ComponentDoc.Cli.Run
import ComponentDoc.Columns
import ComponentDoc.Columns.Decode
import ComponentDoc.Cursor
import ComponentDoc.Document
import ComponentDoc.Extract.Description
import ComponentDoc.Extract.Fields
import ComponentDoc.Extract.Props
import ComponentDoc.Extract.Script
import ComponentDoc.Extract.Slots
import ComponentDoc.Files.Access
import ComponentDoc.Files.FileSystem
import ComponentDoc.Files.Glob
import ComponentDoc.Files.Path
import ComponentDoc.Files.Pattern
import ComponentDoc.Json.Decimal
import ComponentDoc.Json.Reader
import ComponentDoc.Json.Unexpected
import ComponentDoc.Json.Value
import ComponentDoc.Main
import ComponentDoc.Markup.Document
import ComponentDoc.Markup.Node
import ComponentDoc.Markup.Repair
import ComponentDoc.Markup.Syntax
import ComponentDoc.Markup.Tag
import ComponentDoc.Markup.TagName
import ComponentDoc.Markup.Template
import ComponentDoc.Markup.Token
import ComponentDoc.OrderedMap
import ComponentDoc.Pass
import ComponentDoc.Problem
import ComponentDoc.Record
import ComponentDoc.Render.Format
import ComponentDoc.Render.Json
import ComponentDoc.Render.Markdown
import ComponentDoc.RepairCost
import ComponentDoc.Script.Binding
import ComponentDoc.Script.Declaration
import ComponentDoc.Script.Dialect
import ComponentDoc.Script.Element
import ComponentDoc.Script.Expr
import ComponentDoc.Script.Expression
import ComponentDoc.Script.Lexeme
import ComponentDoc.Script.Literal
import ComponentDoc.Script.Module
import ComponentDoc.Script.Name
import ComponentDoc.Script.Parser
import ComponentDoc.Script.Program
import ComponentDoc.Script.Repair
import ComponentDoc.Script.Semicolon
import ComponentDoc.Script.Statement
import ComponentDoc.Script.Syntax
import ComponentDoc.Script.TypeGrammar
import ComponentDoc.Sections
import ComponentDoc.SyntaxTree
import ComponentDoc.Text.Blank
import ComponentDoc.Text.Lines
import ComponentDoc.Proofs.Extract.Reporting
import ComponentDoc.Proofs.Strictness
import ComponentDoc.Proofs.Noninterference
import ComponentDoc.Proofs.Extract.Isolation
import ComponentDoc.Proofs.Extract.Description
import ComponentDoc.Proofs.Extract.Accounted
import ComponentDoc.Proofs.Render.Row
import ComponentDoc.Proofs.Render.Tables
import ComponentDoc.Proofs.Json.Document
import ComponentDoc.Proofs.Json.Layout
import ComponentDoc.Proofs.Columns
import ComponentDoc.Proofs.Render.Json
import ComponentDoc.Proofs.Extract.Operations
import ComponentDoc.Proofs.Cursor
import ComponentDoc.Proofs.Markup.Print
import ComponentDoc.Proofs.Markup.Shape
import ComponentDoc.Proofs.Markup.Tag
import ComponentDoc.Proofs.Markup.Token
import ComponentDoc.Proofs.Markup.Content
import ComponentDoc.Proofs.Markup.RoundTrip
import ComponentDoc.Proofs.Sections
import ComponentDoc.Proofs.Script.Print
import ComponentDoc.Proofs.Script.Lexeme
import ComponentDoc.Proofs.Script.Parser
import ComponentDoc.Proofs.Script.Expression
import ComponentDoc.Proofs.Script.Shape
import ComponentDoc.Proofs.Script.Operand
import ComponentDoc.Proofs.Script.Brackets
import ComponentDoc.Proofs.Script.RoundTrip
import ComponentDoc.Proofs.Files.Path
import ComponentDoc.Proofs.Files.FileSystem
import ComponentDoc.Proofs.Cli.Run
import ComponentDoc.Proofs.Cli.FileMode
import ComponentDoc.Proofs.Cli.Neighbours
import ComponentDoc.Proofs.Cli.Frame
import ComponentDoc.Proofs.Cli.SharedStems
import ComponentDoc.Proofs.Extract.Extraction
import ComponentDoc.Proofs.Render.Headings
import ComponentDoc.Proofs.Extract.RecordNames
import ComponentDoc.Proofs.Extract.Entries
import ComponentDoc.Proofs.Extract.SlotOrder
import ComponentDoc.Proofs.Extract.RepeatedFields
import ComponentDoc.Proofs.Markup.DocumentOrder
import ComponentDoc.Proofs.Markup.Lowering
import ComponentDoc.Proofs.Text.Lines
import ComponentDoc.Proofs.Extract.PropOptions
import ComponentDoc.Proofs.Extract.Decoration
import ComponentDoc.Proofs.Script.Attachment
import ComponentDoc.Proofs.Script.Textless
import ComponentDoc.Proofs.Script.Wrapping
import ComponentDoc.Proofs.Extract.Wrapping
import ComponentDoc.Proofs.Markup.OpeningTag
import ComponentDoc.Proofs.Faults
import ComponentDoc.Proofs.SectionChoice
import ComponentDoc.Proofs.Cli.Inputs
