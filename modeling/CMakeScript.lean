import CMakeScript.Arena
import CMakeScript.Arithmetic
import CMakeScript.Arithmetic.Expression
import CMakeScript.Backtrace
import CMakeScript.BlockStack
import CMakeScript.Cache
import CMakeScript.Command.Block
import CMakeScript.Command.BuildSettings
import CMakeScript.Command.Language
import CMakeScript.Command.Legacy
import CMakeScript.Command.List
import CMakeScript.Command.Loop
import CMakeScript.Command.LoopRange
import CMakeScript.Command.Math
import CMakeScript.Command.Message
import CMakeScript.Command.Policy
import CMakeScript.Command.Project
import CMakeScript.Command.Property
import CMakeScript.Command.String
import CMakeScript.Command.Target
import CMakeScript.Command.Variables
import CMakeScript.CommandLine
import CMakeScript.Condition
import CMakeScript.Condition.Expression
import CMakeScript.Diagnostic
import CMakeScript.Engine.Arguments
import CMakeScript.Engine.Deferred
import CMakeScript.Engine.Messages
import CMakeScript.Engine.Nesting
import CMakeScript.Engine.Policies
import CMakeScript.Engine.Properties
import CMakeScript.Engine.Registry
import CMakeScript.Engine.State
import CMakeScript.Engine.Variables
import CMakeScript.Execution.Branch
import CMakeScript.Execution.BranchBody
import CMakeScript.Execution.Call
import CMakeScript.Execution.Dispatch
import CMakeScript.Execution.Files
import CMakeScript.Execution.Include
import CMakeScript.Execution.LoopRounds
import CMakeScript.Execution.Replay
import CMakeScript.Execution.Runner
import CMakeScript.Execution.Start
import CMakeScript.Expansion
import CMakeScript.Expansion.ByteScan
import CMakeScript.Expansion.Template
import CMakeScript.Files
import CMakeScript.ListFile.Basic
import CMakeScript.ListFile.Grammar
import CMakeScript.ListFile.Lexeme
import CMakeScript.ListFile.LineTable
import CMakeScript.ListFile.Parser
import CMakeScript.ListFile.Rounds
import CMakeScript.ListFile.SyntaxError
import CMakeScript.ListValue
import CMakeScript.Main
import CMakeScript.NameSet
import CMakeScript.NaturalOrder
import CMakeScript.Options
import CMakeScript.Outcome
import CMakeScript.Path
import CMakeScript.Platform
import CMakeScript.Policy.Basic
import CMakeScript.Policy.Frames
import CMakeScript.Proofs.Ancestors
import CMakeScript.Proofs.Arena
import CMakeScript.Proofs.ArenaHistory
import CMakeScript.Proofs.ArithmeticResults
import CMakeScript.Proofs.ArithmeticTokens
import CMakeScript.Proofs.ArithmeticTrees
import CMakeScript.Proofs.ArithmeticWords
import CMakeScript.Proofs.BlockCapture
import CMakeScript.Proofs.BlockOrder
import CMakeScript.Proofs.BodyRuns
import CMakeScript.Proofs.BranchBodies
import CMakeScript.Proofs.BranchSelection
import CMakeScript.Proofs.CacheValues
import CMakeScript.Proofs.CallerPolicies
import CMakeScript.Proofs.ClosedScopes
import CMakeScript.Proofs.CommandEdits
import CMakeScript.Proofs.CommandNames
import CMakeScript.Proofs.CommandRuns
import CMakeScript.Proofs.ConditionChains
import CMakeScript.Proofs.ConditionEdits
import CMakeScript.Proofs.ConditionTrees
import CMakeScript.Proofs.ConditionWords
import CMakeScript.Proofs.Conduct
import CMakeScript.Proofs.ContentHistory
import CMakeScript.Proofs.CrossedScopes
import CMakeScript.Proofs.CurrentScope
import CMakeScript.Proofs.DeferredExit
import CMakeScript.Proofs.DeferredLedger
import CMakeScript.Proofs.DeferredOrder
import CMakeScript.Proofs.DefinitionPolicies
import CMakeScript.Proofs.DirectoryIsolation
import CMakeScript.Proofs.Discipline
import CMakeScript.Proofs.Edits
import CMakeScript.Proofs.ErrorAnswer
import CMakeScript.Proofs.ExpansionBytes
import CMakeScript.Proofs.ExpansionReading
import CMakeScript.Proofs.ExpansionTurns
import CMakeScript.Proofs.FileRuns
import CMakeScript.Proofs.FileVariables
import CMakeScript.Proofs.IncludeLists
import CMakeScript.Proofs.IncludeSettings
import CMakeScript.Proofs.IncludeTexts
import CMakeScript.Proofs.InheritedProperties
import CMakeScript.Proofs.KeptPolicies
import CMakeScript.Proofs.Lexemes
import CMakeScript.Proofs.ListCodec
import CMakeScript.Proofs.ListFilePlaces
import CMakeScript.Proofs.ListFileReading
import CMakeScript.Proofs.ListFileRounds
import CMakeScript.Proofs.ListFileWriting
import CMakeScript.Proofs.ListSorting
import CMakeScript.Proofs.ListSteps
import CMakeScript.Proofs.ListWrites
import CMakeScript.Proofs.LogicalRounds
import CMakeScript.Proofs.Lookup
import CMakeScript.Proofs.LoopBalance
import CMakeScript.Proofs.LoopRange
import CMakeScript.Proofs.LoopRounds
import CMakeScript.Proofs.LoopWords
import CMakeScript.Proofs.MatchVariables
import CMakeScript.Proofs.MetCommands
import CMakeScript.Proofs.Moves
import CMakeScript.Proofs.NaturalOrder
import CMakeScript.Proofs.NormalPaths
import CMakeScript.Proofs.OpenState
import CMakeScript.Proofs.Openings
import CMakeScript.Proofs.PolicyOwners
import CMakeScript.Proofs.PolicyWrites
import CMakeScript.Proofs.Propagation
import CMakeScript.Proofs.PropertyPlaces
import CMakeScript.Proofs.QuotedWords
import CMakeScript.Proofs.RaisedValues
import CMakeScript.Proofs.RecordedPolicies
import CMakeScript.Proofs.RequestRuns
import CMakeScript.Proofs.Returns
import CMakeScript.Proofs.ScopeBrackets
import CMakeScript.Proofs.ScopeChain
import CMakeScript.Proofs.ScopeLineage
import CMakeScript.Proofs.ScopeOrder
import CMakeScript.Proofs.ScopeReturn
import CMakeScript.Proofs.ScopeSoundness
import CMakeScript.Proofs.ScopeTree
import CMakeScript.Proofs.ScopeUse
import CMakeScript.Proofs.ScopeViews
import CMakeScript.Proofs.ScriptExit
import CMakeScript.Proofs.SingleBlock
import CMakeScript.Proofs.Steady
import CMakeScript.Proofs.Stopping
import CMakeScript.Proofs.Surroundings
import CMakeScript.Proofs.TargetRuns
import CMakeScript.Proofs.TargetStarts
import CMakeScript.Proofs.Turns
import CMakeScript.Proofs.VersionOrder
import CMakeScript.Property
import CMakeScript.Regex.Automaton
import CMakeScript.Regex.Basic
import CMakeScript.Regex.CharSet
import CMakeScript.Regex.Compile
import CMakeScript.Regex.Pattern
import CMakeScript.Regex.Reader
import CMakeScript.Regex.Weight
import CMakeScript.Scopes
import CMakeScript.Target
import CMakeScript.Text.Basic
import CMakeScript.Text.Bytes
import CMakeScript.Text.CaseFold
import CMakeScript.Text.CodeTable
import CMakeScript.Text.Decimal
import CMakeScript.Text.Numeral
import CMakeScript.Text.Word
import CMakeScript.Variables
import CMakeScript.Version
