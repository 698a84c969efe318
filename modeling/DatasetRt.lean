import DatasetRt.Lib.Machine
import DatasetRt.Lib.Window
import DatasetRt.Lib.Segments
import DatasetRt.Lib.FloatSum
import DatasetRt.Types
import DatasetRt.Sampling
import DatasetRt.WorkerPool
import DatasetRt.Reader
import DatasetRt.ReaderOrder
import DatasetRt.ReaderErrors
import DatasetRt.WritePipeline
import DatasetRt.WriteOrder
import DatasetRt.Lib.Bytes
import DatasetRt.Lib.FileTree
import DatasetRt.Arrow
import DatasetRt.Metadata
import DatasetRt.Compression
import DatasetRt.Json
import DatasetRt.Manifest
import DatasetRt.ManifestCodec
import DatasetRt.ManifestFrame
import DatasetRt.Record
import DatasetRt.MetadataFile
import DatasetRt.CacheBuilder
import DatasetRt.LoadedCache
import DatasetRt.CacheRoundTrip
import DatasetRt.SamplesMetadata
import DatasetRt.DatasetState
import DatasetRt.DatasetStream
import DatasetRt.SamplesExport
import DatasetRt.DatasetWindows
import DatasetRt.DatasetSession
import DatasetRt.ShardHandles
import DatasetRt.MigrationSafety
import DatasetRt.Lib.Condvar
import DatasetRt.ChannelFifo
import DatasetRt.ChannelWakeups
import DatasetRt.WriteBuffer
import DatasetRt.PoolOperations
import DatasetRt.PoolMoves
import DatasetRt.SharedPool
import DatasetRt.Lib.BufferedIo
import DatasetRt.BuilderIo
import DatasetRt.SourceWriter
import DatasetRt.SourceList
import DatasetRt.WriteTarget
import DatasetRt.Lib.Trace
import DatasetRt.Lib.Footprint
import DatasetRt.SourceReplay
import DatasetRt.SourceListRuns
import DatasetRt.SourceViews
import DatasetRt.SourceStaging
import DatasetRt.SourceListContract
import DatasetRt.Lib.Tiling
import DatasetRt.LoaderPartitions
import DatasetRt.LoaderCoverage
import DatasetRt.LoaderPasses
import DatasetRt.SchemaRuns
import DatasetRt.ManifestRoundTrip
import DatasetRt.MetadataCodec
import DatasetRt.SampleIdentity
import DatasetRt.TableRows
import DatasetRt.ImportAgreement
import DatasetRt.MetadataReader
import DatasetRt.Lib.WordMix
import DatasetRt.SeedDerivation
import DatasetRt.PopulationSelection
import DatasetRt.MetadataBatching
import DatasetRt.Lib.Packing
import DatasetRt.ShardLayout
import DatasetRt.SourceNames
import DatasetRt.ShardPaths
import DatasetRt.TamperEvidence
import DatasetRt.Lib.Guarded
import DatasetRt.CorruptCaches
import DatasetRt.CacheLoading
import DatasetRt.Lib.CrashDisk
import DatasetRt.ConfigurationExport
import DatasetRt.SampleRuns
import DatasetRt.PublicationMarker
import DatasetRt.Lib.Recency
import DatasetRt.ShardReaderLru
import DatasetRt.WorkerRows
import DatasetRt.Lib.Raises
import DatasetRt.DataErrors
import DatasetRt.WriteFifo
import DatasetRt.SampleErrors
import DatasetRt.OneSourceList
import DatasetRt.OneSource
import DatasetRt.Lib.History
import DatasetRt.WriteParallel
import DatasetRt.WriterChildren
import DatasetRt.WriteParallelRuns
import DatasetRt.SourceSupervision
import DatasetRt.WriteParallelTurns
import DatasetRt.WriteParallelBound
import DatasetRt.WriteParallelReturns
import DatasetRt.CacheSourcesDataset
import DatasetRt.WriteHistory
import DatasetRt.MappedMetadata
import DatasetRt.MigratedDataset
import DatasetRt.RestoredDataset
import DatasetRt.WorkerDatasets
import DatasetRt.ExportedPass
import DatasetRt.ReaderProcesses
import DatasetRt.LoaderSettings
