import MfQuery.Aggregate
import MfQuery.Column
import MfQuery.Condition
import MfQuery.Copies
import MfQuery.Cpp.Formula
import MfQuery.Cpp.Lexer
import MfQuery.Cpp.Line
import MfQuery.Cpp.Literal
import MfQuery.Cpp.Parser
import MfQuery.Declarations
import MfQuery.FrontEnd.Empty
import MfQuery.FrontEnd.Explode
import MfQuery.FrontEnd.File
import MfQuery.FrontEnd.Having
import MfQuery.FrontEnd.Joined
import MfQuery.FrontEnd.Pipeline
import MfQuery.FrontEnd.Prompt
import MfQuery.FrontEnd.Tool
import MfQuery.FrontEnd.User
import MfQuery.Having.Exact
import MfQuery.Having.Layout
import MfQuery.Having.LineEnds
import MfQuery.Having.Meaning
import MfQuery.Having.Spacing
import MfQuery.Having.Translation
import MfQuery.Helpers
import MfQuery.Lib.EraseLoop
import MfQuery.Lib.Failure
import MfQuery.Lib.FirstOccurrence
import MfQuery.Lib.Formula
import MfQuery.Lib.Grouping
import MfQuery.Lib.Iteration
import MfQuery.Lib.Ladder
import MfQuery.Lib.Lines
import MfQuery.Lib.Partial
import MfQuery.Lib.Precedence
import MfQuery.Lib.Renaming
import MfQuery.Lib.Replacement
import MfQuery.Lib.Scatter
import MfQuery.Lib.Text
import MfQuery.Meaning.Agreement
import MfQuery.Meaning.Correct
import MfQuery.Meaning.File
import MfQuery.Meaning.Generate
import MfQuery.Meaning.Guards
import MfQuery.Meaning.Laws
import MfQuery.Meaning.Main
import MfQuery.Meaning.Output
import MfQuery.Meaning.Reading
import MfQuery.Meaning.Session
import MfQuery.Meaning.Source
import MfQuery.Meaning.Values
import MfQuery.Names
import MfQuery.Program.Accumulation
import MfQuery.Program.AggregateGuard
import MfQuery.Program.Bounds
import MfQuery.Program.Connectives
import MfQuery.Program.Conservation
import MfQuery.Program.EmfGuard
import MfQuery.Program.Eval
import MfQuery.Program.Extrema
import MfQuery.Program.FVector
import MfQuery.Program.Fill
import MfQuery.Program.Frame
import MfQuery.Program.Guard
import MfQuery.Program.Interference
import MfQuery.Program.Line
import MfQuery.Program.Literals
import MfQuery.Program.Load
import MfQuery.Program.Lockstep
import MfQuery.Program.Lookup
import MfQuery.Program.Modes
import MfQuery.Program.Operators
import MfQuery.Program.Order
import MfQuery.Program.Prelim
import MfQuery.Program.RowGuard
import MfQuery.Program.Run
import MfQuery.Program.Scans
import MfQuery.Program.Scope
import MfQuery.Program.Semantics
import MfQuery.Program.Syntax
import MfQuery.Program.Updates
import MfQuery.Program.WellScoped
import MfQuery.Query
import MfQuery.Retrieval
import MfQuery.ScanGenerator
import MfQuery.Select
import MfQuery.Spelling.Compiled
import MfQuery.Spelling.Conditions
import MfQuery.Spelling.Emitted
import MfQuery.Spelling.Equivalence
import MfQuery.Spelling.Written
import MfQuery.Str
import MfQuery.Str.Loops
import MfQuery.Str.Numerals
import MfQuery.Str.Replace
import MfQuery.Structures
import MfQuery.SuchThat
