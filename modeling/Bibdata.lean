import Bibdata.IndexManager
import Bibdata.Library.Transition
import Bibdata.Proofs.NextDump
import Bibdata.CatchUp
import Bibdata.Proofs.CatchUp
import Bibdata.AlmaDumpFactory
import Bibdata.Workflow
import Bibdata.PassedOver
import Bibdata.Proofs.PassedOver
import Bibdata.Proofs.Overlap
import Bibdata.HoldingLocation
import Bibdata.Library.OrderedHash
import Bibdata.ProcessHoldings
import Bibdata.Filing
import Bibdata.Proofs.ItemsOnce
import Bibdata.Proofs.Counterpart
import Bibdata.Proofs.LocationCodes
import Bibdata.Library.DeferredAdds
import Bibdata.Scsb
import Bibdata.PartnerUpdates
import Bibdata.Proofs.Replay
import Bibdata.Proofs.PartnerUpdates
import Bibdata.DumpFileIndexer
import Bibdata.Proofs.DumpFileIndexer
import Bibdata.AwsSqsPoller
import Bibdata.Library.Disk
import Bibdata.Library.Delimited
import Bibdata.Strings
import Bibdata.Subject
import Bibdata.Proofs.Subject
import Bibdata.IndigenousStudies
import Bibdata.Proofs.IndigenousStudies
import Bibdata.Formats
import Bibdata.PartnerHoldings
import Bibdata.Proofs.PartnerHoldings
import Bibdata.Proofs.SkipsPrivate
import Bibdata.Proofs.AwsSqsPoller
import Bibdata.Library.Slices
import Bibdata.SolrDeleter
import Bibdata.Proofs.SolrDeleter
import Bibdata.SolrJsonWriter
import Bibdata.Proofs.SolrJsonWriter
import Bibdata.DeleteEvents
import Bibdata.Proofs.DeleteEvents
import Bibdata.Library.Pages
import Bibdata.S3Bucket
import Bibdata.Proofs.S3Bucket
import Bibdata.ElectronicAccess
import Bibdata.Proofs.ElectronicAccess
import Bibdata.Library.Stoppable
import Bibdata.IncrementalFiles
import Bibdata.Proofs.Extraction
import Bibdata.Proofs.IncrementalFiles
import Bibdata.NonLatin
import Bibdata.Proofs.ParallelFields
import Bibdata.Library.Masks
import Bibdata.Library.Json
import Bibdata.Library.RetriedPages
import Bibdata.Library.FallibleFold
import Bibdata.DataspaceCollection
import Bibdata.SerdeJson
import Bibdata.SolrDocument
import Bibdata.AuthorizedNames
import Bibdata.DataspaceDocument
import Bibdata.Theses
import Bibdata.Proofs.Scripts
import Bibdata.Proofs.Theses
import Bibdata.Proofs.DataspaceDocument
import Bibdata.Proofs.DataspaceCollection
import Bibdata.Library.JsonRecords
import Bibdata.SolrJson
import Bibdata.EphemeraFolder
import Bibdata.BornDigitalCollection
import Bibdata.Proofs.SolrJson
import Bibdata.Proofs.BornDigitalCollection
import Bibdata.AvailabilityStatus
import Bibdata.Proofs.AvailabilityStatus
import Bibdata.DownloadFullFileJob
import Bibdata.Proofs.DownloadFullFileJob
import Bibdata.ImportAlma
import Bibdata.Proofs.ImportAlma
import Bibdata.VariableLengthField
import Bibdata.Proofs.VariableLengthField
import Bibdata.Library.LazyRuns
import Bibdata.OverflowChecks
import Bibdata.Proofs.OverflowChecks
import Bibdata.Library.Boundaries
import Bibdata.Marctk
import Bibdata.FixedField
import Bibdata.Genre
import Bibdata.Proofs.Genre
import Bibdata.Proofs.BiographicalContent
import Bibdata.Identifier
import Bibdata.Proofs.Identifier
import Bibdata.Publication
import Bibdata.Proofs.Publication
import Bibdata.Library.FirstInOrder
import Bibdata.CatalogedDate
import Bibdata.Proofs.CatalogedDate
import Bibdata.NameTitleBrowse
import Bibdata.Proofs.PrepNameTitle
import Bibdata.Library.Words
import Bibdata.Proofs.TrimmedHeadings
import Bibdata.Proofs.NameTitleBrowse
import Bibdata.Library.Brackets
import Bibdata.Proofs.Oclc
import Bibdata.Proofs.TrimPunctuation
import Bibdata.Proofs.TitleSortKey
import Bibdata.Proofs.LanguageCodes
import Bibdata.Library.WordBlocks
import Bibdata.PrimarySources
import Bibdata.Proofs.PrimarySources
import Bibdata.Genres
import Bibdata.Proofs.Genres
import Bibdata.Library.AnyOrder
import Bibdata.AccessFacetBuilder
import Bibdata.Proofs.AccessFacetBuilder
import Bibdata.RecapItem
import Bibdata.Proofs.RecapItem
import Bibdata.FiggyReport
import Bibdata.Proofs.FiggyReport
import Bibdata.JsonValue
import Bibdata.Library.Unrestored
import Bibdata.LocationData
import Bibdata.Proofs.LocationData
import Bibdata.Library.KeyedStore
import Bibdata.TrajectIndexer
import Bibdata.Proofs.WriterRequests
import Bibdata.Proofs.TrajectIndexer
import Bibdata.SolrCollection
import Bibdata.Proofs.SolrCollection
import Bibdata.Proofs.DumpOrder
import Bibdata.Library.Batches
import Bibdata.PartnerFull
import Bibdata.Proofs.PartnerFull
import Bibdata.NumismaticsIndexer
import Bibdata.Proofs.NumismaticsIndexer
import Bibdata.AlmaAdapter
import Bibdata.Proofs.AlmaAdapter
import Bibdata.Proofs.MarcxmlCompressor
import Bibdata.Proofs.BarcodeController
import Bibdata.Proofs.RedisCache
import Bibdata.Library.Base64
import Bibdata.Proofs.Locations
import Bibdata.Contributors
import Bibdata.Library.SortedMap
import Bibdata.Titles
import Bibdata.CallNumber
import Bibdata.Cartography
import Bibdata.Languages
import Bibdata.Notes
import Bibdata.Proofs.SolrFields
