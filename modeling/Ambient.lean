import Ambient.Code.Builder
import Ambient.Code.Fragment
import Ambient.Code.Step
import Ambient.Command.Arguments
import Ambient.Command.Generate
import Ambient.Command.Help
import Ambient.Command.List
import Ambient.Command.Options
import Ambient.Command.Program
import Ambient.Command.Report
import Ambient.Command.Select
import Ambient.Doc.Comment
import Ambient.Doc.Element
import Ambient.Files.Host
import Ambient.Files.Path
import Ambient.Files.Target
import Ambient.Files.Tree
import Ambient.Json.Token
import Ambient.Layout.Group
import Ambient.Layout.Index
import Ambient.Main
import Ambient.NameMap
import Ambient.Proofs.Code.Lines
import Ambient.Proofs.Document.Cut
import Ambient.Proofs.Document.Gather
import Ambient.Proofs.Document.Places
import Ambient.Proofs.Document.Resolve
import Ambient.Proofs.Document.Statements
import Ambient.Proofs.Documentation.Apart
import Ambient.Proofs.Documentation.Bare
import Ambient.Proofs.Documentation.Contained
import Ambient.Proofs.Documentation.Erasure
import Ambient.Proofs.Inheritance.Acyclic
import Ambient.Proofs.Inheritance.Declared
import Ambient.Proofs.Inheritance.Fields
import Ambient.Proofs.Inheritance.Marks
import Ambient.Proofs.Inheritance.Shape
import Ambient.Proofs.Inheritance.Walk
import Ambient.Proofs.Layout.Bindings
import Ambient.Proofs.Layout.Partition
import Ambient.Proofs.Render.Complete
import Ambient.Proofs.Render.Stopped
import Ambient.Proofs.Repository.Answers
import Ambient.Proofs.Repository.Chain
import Ambient.Proofs.Repository.Reached
import Ambient.Proofs.Scoping.Binding
import Ambient.Proofs.Scoping.Meant
import Ambient.Proofs.Scoping.Names
import Ambient.Proofs.Selection.Faithful
import Ambient.Proofs.Selection.Selected
import Ambient.Proofs.Snapshot.Names
import Ambient.Proofs.Text.Trimmed
import Ambient.Proofs.TypeScript.Names
import Ambient.Proofs.TypeScript.Strip
import Ambient.Reading.Loop
import Ambient.Render.CancelToken
import Ambient.Render.Generator
import Ambient.Render.Group
import Ambient.Render.Partition
import Ambient.Render.Pass
import Ambient.Render.TableDeclaration
import Ambient.Repository.Basic
import Ambient.Repository.Cache
import Ambient.Repository.Navigation
import Ambient.Repository.Session
import Ambient.Schema.Descriptor
import Ambient.Schema.Disposition
import Ambient.Schema.Element
import Ambient.Schema.Scalar
import Ambient.Schema.Snapshot
import Ambient.Schema.Table
import Ambient.Snapshot.Format
import Ambient.Snapshot.Json
import Ambient.Snapshot.Parse
import Ambient.Snapshot.Schema
import Ambient.Snapshot.Span
import Ambient.Snapshot.Toml
import Ambient.Snapshot.Validation
import Ambient.Text.AsciiCase
import Ambient.Text.Blank
import Ambient.Text.Decimal
import Ambient.Text.End
import Ambient.Text.Lines
import Ambient.Text.Position
import Ambient.Text.Quoted
import Ambient.Text.Split
import Ambient.Toml.Atom
import Ambient.Toml.Parser
import Ambient.Toml.Tree
import Ambient.Toml.Value
import Ambient.TypeScript.Declaration
import Ambient.TypeScript.Document
import Ambient.TypeScript.Naming
import Ambient.TypeScript.Reference
import Ambient.Proofs.Render.Course
import Ambient.Proofs.Render.Stages
import Ambient.Proofs.Document.Shorter
import Ambient.Proofs.Render.Cancelled
import Ambient.Proofs.Scoping.Distinct
import Ambient.Proofs.Scoping.Usable
import Ambient.Proofs.Command.Generated
import Ambient.Proofs.Layout.Recorded
import Ambient.Proofs.Layout.Canonical
import Ambient.Proofs.Scoping.Together
import Ambient.Proofs.Repository.Made
import Ambient.Proofs.Repository.Sparing
import Ambient.Proofs.Repository.Cached
import Ambient.Proofs.Render.Sparing
import Ambient.Proofs.Layout.Rewritten
import Ambient.Proofs.Snapshot.Rewritten
import Ambient.Proofs.Snapshot.Trimmed
import Ambient.Proofs.Repository.Mirrored
import Ambient.Proofs.Selection.Mirrored
import Ambient.Proofs.Render.Mirrored
import Ambient.Proofs.Render.Unscoped
import Ambient.Proofs.Text.Words
import Ambient.Proofs.TypeScript.Emptied
import Ambient.Proofs.Document.Outline
import Ambient.Proofs.Render.Listed
import Ambient.Proofs.Command.Arguments
import Ambient.Proofs.Command.DryRun
import Ambient.Proofs.Snapshot.Spans
import Ambient.Proofs.Code.Steps
import Ambient.Proofs.Snapshot.Accepted
import Ambient.Proofs.Repository.Counted
import Ambient.Proofs.Inheritance.Paired
import Ambient.Proofs.Text.Shown
import Ambient.Proofs.Documentation.Skipped
import Ambient.Proofs.TypeScript.Literals
import Ambient.Proofs.Snapshot.NameSpans
import Ambient.Proofs.Text.Tidy
import Ambient.Proofs.Documentation.Closed
import Ambient.Proofs.Inheritance.Iterated
import Ambient.Proofs.Text.LineColumn
