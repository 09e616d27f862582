import Listing.Compiled
import Listing.Proofs.AddressableNames
import Listing.Proofs.Agreement
import Listing.Proofs.BlamedParameters
import Listing.Proofs.BoundIntegers
import Listing.Proofs.BucketTables
import Listing.Proofs.BuiltTrees
import Listing.Proofs.CalendarText
import Listing.Proofs.CanonicalKeys
import Listing.Proofs.ChainedGroups
import Listing.Proofs.DocumentElements
import Listing.Proofs.DocumentLiterals
import Listing.Proofs.EagerLoading
import Listing.Proofs.FilterContext
import Listing.Proofs.FilterHeight
import Listing.Proofs.FilterMeaning
import Listing.Proofs.FilterPlaces
import Listing.Proofs.GroupKeys
import Listing.Proofs.GroupLimit
import Listing.Proofs.GroupOrder
import Listing.Proofs.IntegerTexts
import Listing.Proofs.LiteralPatterns
import Listing.Proofs.LoadOrder
import Listing.Proofs.MatchStages
import Listing.Proofs.MetricIndependence
import Listing.Proofs.Negation
import Listing.Proofs.NestedGroups
import Listing.Proofs.OneStore
import Listing.Proofs.OperandData
import Listing.Proofs.OrderSpellings
import Listing.Proofs.PageDocuments
import Listing.Proofs.PageLimit
import Listing.Proofs.PageRows
import Listing.Proofs.ParameterOrder
import Listing.Proofs.PathResolution
import Listing.Proofs.PhraseLength
import Listing.Proofs.PhraseSearch
import Listing.Proofs.RangeBounds
import Listing.Proofs.RegularExpressions
import Listing.Proofs.Semantics.DocumentForm
import Listing.Proofs.StatementScope
import Listing.Proofs.Support.Compiled
import Listing.Proofs.Support.Numerals
import Listing.Proofs.TemplatePlaces
import Listing.Proofs.TotalsColumns
import Listing.Proofs.TotalsCount
import Listing.Proofs.TotalsSpellings
import Listing.Proofs.TypedValues
import Listing.Proofs.UniqueKeys
import Listing.Proofs.UpperCase
import Listing.Resource.Config
import Listing.Sql.Execution
import Listing.Sql.Filling
import Listing.Uri
