import ZManager.Safety.HardlinkMember
import ZManager.Extract.SymlinkClosure
import ZManager.Rar.LinkAcceptance
import ZManager.Extract.ExpansionLimit
import ZManager.Zip.TestAgreement
import ZManager.Create.SevenZRoundTrip
import ZManager.Create.SplitZipRoundTrip
import ZManager.Create.FailedCreation
import ZManager.Create.Publish
import ZManager.Decode.UuTermination
import ZManager.Cpio.HardlinkIdentity
import ZManager.Safety.Selection
import ZManager.Manifest.Includes
import ZManager.Decode.WholeFile
import ZManager.Identity.ContactApply
import ZManager.Identity.CatalogFile
import ZManager.Identity.AuthFlowRun
import ZManager.Identity.VaultRun
import ZManager.Identity.ContactCardForms
import ZManager.Identity.SelectionAgreement
import ZManager.Safety.NoClobber
import ZManager.Extract.Budget
import ZManager.Extract.DirectoryMetadata
import ZManager.Zip.MetadataAttributes
import ZManager.Safety.Normalization
import ZManager.Tar.PaxTime
import ZManager.Decode.SegmentedReader
import ZManager.Zip.EntryTimes
import ZManager.Decode.UnixCompressLzw
import ZManager.Decode.UuRoundTrip
import ZManager.Decode.UuBounds
import ZManager.Tar.Create
import ZManager.Decode.InnerFailures
import ZManager.Decode.LzopRoundTrip
import ZManager.Wim.MetadataSafety
import ZManager.Safety.Wildcard
import ZManager.Manifest.GitignoreBelow
import ZManager.Extract.DependencyOrder
import ZManager.Identity.StatusFreshness
import ZManager.Identity.SecretFile
import ZManager.Identity.KeyBackup
import ZManager.Engine.PathNormalizers
import ZManager.Extract.BrowserReports
import ZManager.Wim.CallTranslation
import ZManager.Mtree.NestedForm
import ZManager.Warc.Accounting
import ZManager.Wim.Window
import ZManager.Foundation.Ownership
import ZManager.LocalSend.Registry
import ZManager.LocalSend.Receivers
import ZManager.LocalSend.Requests
import ZManager.LocalSend.Deliveries
import ZManager.LocalSend.Discovery
import ZManager.Wim.Resource
import ZManager.Wim.Archive
import ZManager.Wim.VerifyAgreement
import ZManager.Jobs.Progress
import ZManager.Jobs.Windows
import ZManager.Jobs.Accounting
import ZManager.Jobs.Batches
import ZManager.Jobs.Extraction
import ZManager.Jobs.Reporting
import ZManager.Foundation.Keyword
import ZManager.Create.ErrorKinds
import ZManager.Detect.Content
import ZManager.Identity.IntermediateRuns
import ZManager.Cli.ExtractDestination
import ZManager.Disk.CdiTrack
import ZManager.Disk.IszImage
import ZManager.Decode.UnixCompressBits
import ZManager.Wim.ResourceCache
