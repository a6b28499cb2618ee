import Storix.Persistence.Run
import Storix.Persistence.Reads
import Storix.Results.ChangeFeed
import Storix.Results.Versions
import Storix.Results.Listing
import Storix.Results.FeedReaders
import Storix.Results.Receipts
import Storix.Results.MultipartOwnership
import Storix.Results.ObjectCollection
import Storix.Results.UploadAccounting
import Storix.Results.ExtractExclude
import Storix.Invariants.UploadSteps
import Storix.Results.EntryPlanner
import Storix.Results.NamespaceCreation
import Storix.Results.Prechecks
import Storix.Results.NoTrace
import Storix.Results.Limits
import Storix.Results.Moves
import Storix.Results.Copies
import Storix.Results.JsonDuplicateKeys
import Storix.Results.EncryptedReads
import Storix.Results.GcStages
import Storix.Results.TarNames
import Storix.Results.ZipReader
import Storix.Results.ZipWriter
import Storix.Results.StreamUpload
import Storix.Results.NameFilters
import Storix.Results.Fingerprints
import Storix.Results.PathOrder
import Storix.Results.BulkWrites
import Storix.Results.UploadDiagnosis
import Storix.Results.Retention
import Storix.Results.ZipRoundTrip
import Storix.Results.UploadFinalize
import Storix.Results.SnapshotReads
import Storix.Results.TrashRoundTrip
import Storix.Results.ListPages
import Storix.Results.SqliteGate
import Storix.Results.Backup
