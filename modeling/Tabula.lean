import Tabula.Catalog.Growth
import Tabula.Linkage.Assembly
import Tabula.Linkage.Relation
import Tabula.Value.Json
import Tabula.Proofs.Catalog.Accounting
import Tabula.Proofs.Catalog.Confluence
import Tabula.Proofs.Catalog.Diagnostics
import Tabula.Proofs.Catalog.History
import Tabula.Proofs.Definition.CommentedDocuments
import Tabula.Proofs.Definition.Dispatch
import Tabula.Proofs.Definition.EnumNumbering
import Tabula.Proofs.Definition.EnumWidths
import Tabula.Proofs.Definition.FieldForms
import Tabula.Proofs.Definition.KeyOrder
import Tabula.Proofs.Definition.PlainDocuments
import Tabula.Proofs.Definition.StrictReading
import Tabula.Proofs.Definition.WrittenEnums
import Tabula.Proofs.Linkage.AbsentParts
import Tabula.Proofs.Linkage.ColumnNames
import Tabula.Proofs.Linkage.CompatibleFlattening
import Tabula.Proofs.Linkage.Cycles
import Tabula.Proofs.Linkage.EnumLookups
import Tabula.Proofs.Linkage.LookupKinds
import Tabula.Proofs.Linkage.LookupWalks
import Tabula.Proofs.Linkage.Readiness
import Tabula.Proofs.Linkage.RelatedTables
import Tabula.Proofs.Linkage.RoundTrip
import Tabula.Proofs.Linkage.Search
import Tabula.Proofs.Schema.Compatibility
import Tabula.Proofs.Schema.Indices
import Tabula.Proofs.Table.Counters
import Tabula.Proofs.Table.Documents
import Tabula.Proofs.Table.Fallbacks
import Tabula.Proofs.Value.IntegerChains
import Tabula.Proofs.Value.RealTexts
