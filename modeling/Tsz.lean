import Tsz.Bind.Correctness
import Tsz.Recursion.Run
import Tsz.Syntax.SourceText
import Tsz.Syntax.Descendants
import Tsz.Syntax.Escapes
import Tsz.Syntax.Parser.Recovery
import Tsz.Syntax.Parser.Lookahead
import Tsz.Syntax.Parser.Literals
import Tsz.Syntax.Parser.Functions
import Tsz.Syntax.Parser.Expressions
import Tsz.Syntax.Parser.Statements
import Tsz.Syntax.Parser.Unit
import Tsz.Syntax.Scanner
import Tsz.Syntax.Progress.Steps
import Tsz.Syntax.Progress.Literals
import Tsz.Syntax.Progress.Types
import Tsz.Syntax.Progress.Functions
import Tsz.Syntax.Progress.Expressions
import Tsz.Syntax.Progress.Statements
import Tsz.Syntax.Progress.Termination
import Tsz.Sorting.KeyTree
import Tsz.Sorting.StableSort
import Tsz.Semantics.TypeKind
import Tsz.Semantics.TypeStore
import Tsz.Semantics.OrderKey
import Tsz.Semantics.Union
import Tsz.Semantics.Renaming
import Tsz.Semantics.OrderIndependence
import Tsz.Semantics.Combination
import Tsz.Semantics.References
import Tsz.Semantics.Relation
import Tsz.Semantics.RelationRuns
import Tsz.Recursion.Plan
import Tsz.Semantics.AliasSystem
import Tsz.Semantics.Decision
import Tsz.Semantics.Transitivity
import Tsz.Syntax.Scanner.Partition
import Tsz.Sorting.Grouping
import Tsz.Project.Path
import Tsz.Project.EmitPlan
import Tsz.Project.Names
import Tsz.Project.Discovery
import Tsz.Project.Patterns
import Tsz.Project.Relocation
import Tsz.Recursion.Visited
import Tsz.Project.ConfigLoading
import Tsz.Project.ConfigCache
import Tsz.Semantics.CallArity
import Tsz.Semantics.Optionality
import Tsz.Semantics.Extremes
import Tsz.Semantics.FlowNarrowing
import Tsz.Semantics.Reading
import Tsz.Semantics.FlowRuns
import Tsz.Semantics.PredicateNarrowing
import Tsz.Semantics.MemberNarrowing
import Tsz.Recursion.GraphSearch
import Tsz.Syntax.AuthoredTypes
import Tsz.Semantics.AliasProductivity
import Tsz.Semantics.VoidArguments
import Tsz.Semantics.UnionNormalForm
import Tsz.Semantics.Widening
import Tsz.Semantics.WidenedUnion
import Tsz.Recursion.Simulation
import Tsz.Semantics.RelationSimulation
import Tsz.Semantics.RelationState
import Tsz.Semantics.RelationCalls
import Tsz.Semantics.Projections
import Tsz.Recursion.Elimination
import Tsz.Semantics.ContextualMembers
import Tsz.Semantics.ObjectShapes
import Tsz.Semantics.ShapeRuns
import Tsz.Semantics.UnionLaws
import Tsz.Syntax.Scanner.Templates
import Tsz.Recursion.Growth
import Tsz.Semantics.GenerativeGrowth
import Tsz.Syntax.Scanner.Rescan
import Tsz.Syntax.Parser.TypeClose
import Tsz.Recursion.Sequencing
import Tsz.Emit.ConstructorBody
import Tsz.Emit.MemberAccess
import Tsz.Semantics.TypeNodes
import Tsz.Lexical.Precedence
import Tsz.Recursion.Completion
import Tsz.Syntax.Parser.Operators
import Tsz.Lexical.Wildcards
import Tsz.Project.Globs
import Tsz.Syntax.Scanner.Strings
import Tsz.Syntax.Quoting
import Tsz.Syntax.Scanner.RegularExpressions
import Tsz.Numeric.Rounding
import Tsz.Numeric.Decimals
import Tsz.Syntax.Numbers.PowerOfTwo
import Tsz.Syntax.Numbers.Display
import Tsz.Syntax.Numbers.Parse
import Tsz.Syntax.Numbers.Recovery
import Tsz.Syntax.Numbers.RecoveredTokens
import Tsz.Syntax.Numbers.NumberTokens
import Tsz.Syntax.Numbers.Spellings
import Tsz.Semantics.NumericNames
import Tsz.Semantics.NumericIdentity
import Tsz.Diagnostics
import Tsz.Recursion.Saturation
import Tsz.Project.DeclarationGroups
import Tsz.Project.Lexical
import Tsz.Project.CommonDirectory
import Tsz.Project.RelativeImports
import Tsz.Syntax.Coordinates
import Tsz.Project.DiscoveryOrder
import Tsz.Project.Jsonc.Inventory
import Tsz.Service.Editor
