import GraphSql.Database.Client
import GraphSql.Proofs.Compiler.Comments
import GraphSql.Proofs.Compiler.TempTables
import GraphSql.Proofs.Compiler.PassThrough
import GraphSql.Proofs.Compiler.References
import GraphSql.Proofs.Query.RoundTrip
import GraphSql.Proofs.Scope.Aliases
import GraphSql.Proofs.Scope.Grouping
import GraphSql.Proofs.Database.Session
import GraphSql.Proofs.Compiler.NodeIds
import GraphSql.Proofs.Compiler.SortKeys
import GraphSql.Proofs.Query.WellFormed
import GraphSql.Proofs.Compiler.LetterCase
import GraphSql.Proofs.Scope.Declared
import GraphSql.Proofs.Compiler.TextContents
import GraphSql.Proofs.Compiler.Refusals
import GraphSql.Proofs.Database.Lifecycle
import GraphSql.Proofs.Compiler.Spelling
import GraphSql.Proofs.Schema.TableNames
import GraphSql.Proofs.Scope.OutputNames
import GraphSql.Proofs.Scope.Filters
import GraphSql.Proofs.Scope.GroupKeys
import GraphSql.Proofs.Compiler.TextTests
import GraphSql.Proofs.Compiler.NameColumns
import GraphSql.Proofs.Compiler.SortedGroups
import GraphSql.Proofs.Compiler.PassedEdges
import GraphSql.Proofs.Compiler.Membership
import GraphSql.Proofs.Compiler.Provenance
import GraphSql.Proofs.Compiler.CollectedLists
import GraphSql.Proofs.Compiler.SplitClauses
import GraphSql.Proofs.Compiler.LoopTypes
import GraphSql.Proofs.Query.QuotedTexts
import GraphSql.Proofs.Relational.Formatted
import GraphSql.Proofs.Schema.Definitions
import GraphSql.Proofs.Compiler.LabelSpacing
