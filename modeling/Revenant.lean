import Revenant.Arbitration
import Revenant.SignatureTable
import Revenant.SetBits
import Revenant.WindowMatch
import Revenant.BlockDevices
import Revenant.CarveMatches
import Revenant.SignatureScanner
import Revenant.ByteLayout
import Revenant.CandidateRecord
import Revenant.CandidateIndex
import Revenant.IndexingVisitors
import Revenant.ScanRegions
import Revenant.Sha256
import Revenant.Checkpoint
import Revenant.CrashSafety
import Revenant.HybridRecovery
import Revenant.IndexHoldings
import Revenant.Session
import Revenant.SessionResume
import Revenant.CheckpointInterval
import Revenant.OutputPath
import Revenant.ExtractFile
import Revenant.RecoverySink
import Revenant.OutputAliasing
import Revenant.SinkAccounting
import Revenant.PreviewAgreement
import Revenant.DiscoveryOrder
import Revenant.IndexRoundTrip
import Revenant.ByteReader
import Revenant.Crc32
import Revenant.GptTable
import Revenant.GptCopies
import Revenant.PartitionTable
import Revenant.SessionOwnership
import Revenant.Consulting
import Revenant.VolumeReading
import Revenant.WorklistWalk
import Revenant.ClusterChain
import Revenant.DirectoryTreeWalk
import Revenant.ExfatVolume
import Revenant.FatVolume
import Revenant.Ext4Volume
import Revenant.Ext4Walk
import Revenant.WalkTermination
import Revenant.ExfatLiveTree
import Revenant.ExfatCompleteness
import Revenant.NtfsRecord
import Revenant.NtfsVolume
import Revenant.EntryContent
import Revenant.RegionDenotation
import Revenant.RetryingDevice
import Revenant.DamageMap
import Revenant.RetryBounds
import Revenant.DamagedDrive
import Revenant.AlignedRead
import Revenant.CachingDevice
import Revenant.ScanOrder
import Revenant.ScanCompleteness
import Revenant.Ext4LiveTree
import Revenant.Ext4DirectoryReading
import Revenant.Ext4Completeness
import Revenant.PartitionContainment
import Revenant.DeliveredWhole
import Revenant.CarverReading
import Revenant.IndexTotality
import Revenant.OutputNames
import Revenant.PngCarver
import Revenant.Mp4Carver
import Revenant.ZipCarver
import Revenant.PdfCarver
import Revenant.ExtentStability
import Revenant.JpegCarver
import Revenant.TiffWalk
import Revenant.TiffExtent
import Revenant.TiffByteOrder
import Revenant.BuiltinCarvers
import Revenant.SourceLoss
import Revenant.InitializedLength
import Revenant.InventedRanges
import Revenant.FaithfulReading
import Revenant.FaithfulArtifacts
import Revenant.TableSectors
import Revenant.ExtendedChain
import Revenant.MbrLayout
import Revenant.ChainFollowing
import Revenant.ChainDenotation
import Revenant.FatLongNames
import Revenant.ExfatDeletedSets
import Revenant.ExfatOwnSlots
import Revenant.TreeCompleteness
import Revenant.FatCompleteness
import Revenant.RunDelivery
import Revenant.ScannedPosition
import Revenant.UpdateSequenceFixup
import Revenant.PathClimb
import Revenant.AddressArithmetic
import Revenant.RunlistEncoding
import Revenant.TableReading
import Revenant.ChainEncoding
import Revenant.RecordTotality
import Revenant.RangeTiling
import Revenant.ExtentTreeDenotation
import Revenant.DigestStandard
import Revenant.RawNameDecoding
import Revenant.Utf16NameDecoding
import Revenant.Utf16NameMerging
import Revenant.JsonText
import Revenant.Manifest
import Revenant.AnnotatedWalk
import Revenant.JournalHints
import Revenant.FollowedChain
import Revenant.OrphanReports
import Revenant.JournalTags
import Revenant.DeletedNames
import Revenant.JournalCopies
import Revenant.BitSerialCrc
import Revenant.HoleSearch
import Revenant.DeviceNumbers
import Revenant.LastGreatest
import Revenant.MountTable
import Revenant.DescendingWorklist
import Revenant.MountText
import Revenant.SysfsWalk
import Revenant.SysfsSafety
import Revenant.NativeRead
import Revenant.SourceDevice
import Revenant.DestinationRule
import Revenant.CommandLine
import Revenant.CommandGrammar
import Revenant.CommandLanguage
import Revenant.CommandRendering
import Revenant.AttributeBuilder
import Revenant.MftRecordBuilder
import Revenant.BootSectorBuilder
import Revenant.NtfsImageBuilder
import Revenant.NtfsImageReading
import Revenant.FixtureJpeg
import Revenant.PlantedFiles
import Revenant.SoakImage
import Revenant.NtfsFixture
