import ScriptShell.Alias.Import
import ScriptShell.Alias.Site
import ScriptShell.Alias.Table
import ScriptShell.CommandLine.Arguments
import ScriptShell.CommandLine.Help
import ScriptShell.CommandLine.LogLevel
import ScriptShell.CommandLine.Run
import ScriptShell.CommandLine.Span
import ScriptShell.Completion.Candidates
import ScriptShell.Completion.Context
import ScriptShell.Config.Settings
import ScriptShell.Double
import ScriptShell.Error
import ScriptShell.Evaluator
import ScriptShell.Files.Path
import ScriptShell.Files.Tree
import ScriptShell.Host.Connection
import ScriptShell.Host.Frame
import ScriptShell.Host.Request
import ScriptShell.Host.Response
import ScriptShell.Host.Scripted
import ScriptShell.Json.Basic
import ScriptShell.Json.Parser
import ScriptShell.Json.Printer
import ScriptShell.Json.Record
import ScriptShell.Json.Token
import ScriptShell.Launch.Banner
import ScriptShell.Launch.Bootstrap
import ScriptShell.Launch.Environment
import ScriptShell.Main
import ScriptShell.Memory
import ScriptShell.NameMap
import ScriptShell.Session.Basic
import ScriptShell.Session.Input
import ScriptShell.Session.Preload
import ScriptShell.Statement.Balance
import ScriptShell.Statement.Buffer
import ScriptShell.Statement.Expression
import ScriptShell.Text.Bytes
import ScriptShell.Text.Char
import ScriptShell.Text.Cluster
import ScriptShell.Text.ClusterTable
import ScriptShell.Text.ExtendTable
import ScriptShell.Text.IdentifierTable
import ScriptShell.Text.Lines
import ScriptShell.Text.Logged
import ScriptShell.Text.Quoted
import ScriptShell.Text.Scan
import ScriptShell.Text.Trim
import ScriptShell.Text.UnprintableTable
import ScriptShell.Text.WordTable
import ScriptShell.Toml.Basic
import ScriptShell.Toml.Document
import ScriptShell.Toml.Parser
import ScriptShell.Toml.Quoted
import ScriptShell.Toml.Scalar
import ScriptShell.Value
import ScriptShell.Variables.Scan
import ScriptShell.Variables.Tracker
import ScriptShell.Proofs.NameMap
import ScriptShell.Proofs.Session.Course
import ScriptShell.Proofs.Session.BindingFlow
import ScriptShell.Proofs.Session.Dispatch
import ScriptShell.Proofs.Alias.Expansion
import ScriptShell.Proofs.Alias.Invisible
import ScriptShell.Proofs.Session.Tracking
import ScriptShell.Proofs.Host.Output
import ScriptShell.Proofs.Session.Replay
import ScriptShell.Proofs.Completion.Cursor
import ScriptShell.Proofs.Completion.Members
import ScriptShell.Proofs.Completion.Names
import ScriptShell.Proofs.Host.Listing
import ScriptShell.Proofs.Session.AfterEnd
import ScriptShell.Proofs.Statement.Closure
import ScriptShell.Proofs.Session.Recovery
import ScriptShell.Proofs.Session.Prompting
import ScriptShell.Proofs.Alias.Position
import ScriptShell.Proofs.Alias.StaticAccess
import ScriptShell.Proofs.Alias.Absent
import ScriptShell.Proofs.Alias.Observation
import ScriptShell.Proofs.Alias.Absorption
import ScriptShell.Proofs.Alias.Order
import ScriptShell.Proofs.Completion.Typing
import ScriptShell.Proofs.Statement.Terminator
import ScriptShell.Proofs.Text.Pattern
import ScriptShell.Proofs.Variables.Patterns
import ScriptShell.Proofs.Completion.Variables
import ScriptShell.Proofs.Host.Asking
import ScriptShell.Proofs.Session.Script
import ScriptShell.Proofs.Launch.ServiceFile
import ScriptShell.Proofs.Statement.Totals
import ScriptShell.Proofs.Completion.Bytewise
import ScriptShell.Proofs.Session.History
