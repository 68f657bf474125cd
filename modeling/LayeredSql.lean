import LayeredSql.Folder
import LayeredSql.Main
import LayeredSql.Proofs.Columns
import LayeredSql.Proofs.InsertionOrder
import LayeredSql.Proofs.OutputItems
import LayeredSql.Proofs.TargetLexing
import LayeredSql.Proofs.Nesting
import LayeredSql.Proofs.Acceptance
import LayeredSql.Proofs.BaseTables
import LayeredSql.Proofs.ColumnLists
import LayeredSql.Proofs.TableReferences
import LayeredSql.Proofs.LowercaseForms
import LayeredSql.Proofs.KeywordSearch
import LayeredSql.Proofs.StepResolution
import LayeredSql.Proofs.PlanRuns
import LayeredSql.Proofs.NameReading
import LayeredSql.Proofs.NameQuoting
import LayeredSql.Proofs.Layers
import LayeredSql.Proofs.ColumnChains
import LayeredSql.Proofs.LayerTexts
import LayeredSql.Proofs.Lineage
import LayeredSql.Proofs.Portability
import LayeredSql.Proofs.PlanEvents
import LayeredSql.Proofs.CommandWords
import LayeredSql.Proofs.PlanViews
import LayeredSql.Proofs.FragmentGrammar
import LayeredSql.Proofs.AcceptedTexts
import LayeredSql.Proofs.RankingColumn
import LayeredSql.Proofs.ControlCharacters
import LayeredSql.Proofs.RankingDigests
import LayeredSql.Proofs.OutputLines
import LayeredSql.Proofs.JsonText
import LayeredSql.Proofs.PlanDocuments
import LayeredSql.Proofs.UnknownMembers
