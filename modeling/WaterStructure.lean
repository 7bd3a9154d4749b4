import WaterStructure.Core.Types
import WaterStructure.Core.PumpDelivery
import WaterStructure.Core.PumpCancel
import WaterStructure.Library.BitPacking
import WaterStructure.Core.Grid
import WaterStructure.Library.InternTable
import WaterStructure.Formats.Litematic
import WaterStructure.Formats.LitematicRoundTrip
import WaterStructure.Library.SpanSweep
import WaterStructure.Library.Strips
import WaterStructure.Core.Box
import WaterStructure.Formats.BatchEncoder
import WaterStructure.Formats.BatchPartition
import WaterStructure.Library.Csr
import WaterStructure.Library.OrderedMerge
import WaterStructure.Formats.CuboidCommand
import WaterStructure.Formats.CommandReaders
import WaterStructure.Formats.CommandPainting
import WaterStructure.Library.Varint
import WaterStructure.Formats.Schem
import WaterStructure.Formats.SchemIndex
import WaterStructure.Formats.SchemChunks
import WaterStructure.Formats.SchemOffset
import WaterStructure.Core.GridStream
import WaterStructure.World.WorldChunkSink
import WaterStructure.Formats.SchemWorld
import WaterStructure.Formats.SchemWorldStream
import WaterStructure.Library.Memo
import WaterStructure.Library.Workers
import WaterStructure.Formats.McFunctionText
import WaterStructure.Formats.McFunctionRead
import WaterStructure.Formats.McFunctionMeaning
import WaterStructure.Formats.McFunctionAgreement
import WaterStructure.Library.Lines
import WaterStructure.Core.StructureSource
import WaterStructure.Formats.McFunctionWriter
import WaterStructure.Core.StateKeys
import WaterStructure.Core.Registry
import WaterStructure.Core.RegistryIdentity
import WaterStructure.Core.Text
import WaterStructure.Library.Json
import WaterStructure.Core.JavaStates
import WaterStructure.Core.MappingRegistry
import WaterStructure.Core.MappingAssets
import WaterStructure.Core.MappingLoad
import WaterStructure.Formats.IbImportText
import WaterStructure.Formats.IbImportRead
import WaterStructure.Core.NonAirCount
import WaterStructure.Formats.CommandObjects
import WaterStructure.Formats.CommandLists
import WaterStructure.Formats.CommandRereads
import WaterStructure.World.GridCoverage
import WaterStructure.Core.SparseBlockStore
import WaterStructure.World.MovedStructures
import WaterStructure.Library.ShardedLog
import WaterStructure.Formats.BdxStream
import WaterStructure.Formats.BdxSpool
import WaterStructure.Formats.BdxPlacements
import WaterStructure.Library.NbtTag
import WaterStructure.Library.SortedMap
import WaterStructure.Core.BlockEntities
import WaterStructure.Formats.McStructure
import WaterStructure.Formats.McStructureWriter
import WaterStructure.Formats.McStructureRoundTrip
import WaterStructure.Formats.McStructureChunks
import WaterStructure.World.EncodeChunks
import WaterStructure.World.EntityLanding
import WaterStructure.World.ArchiveCommit
import WaterStructure.World.ArchiveCommitRuns
import WaterStructure.Library.StatefulRun
import WaterStructure.Core.Layers
import WaterStructure.World.StoredWorld
import WaterStructure.Formats.McWorld
import WaterStructure.Formats.McWorldSelection
import WaterStructure.Formats.McWorldCache
import WaterStructure.Library.MeteredLoop
import WaterStructure.Formats.Tibi
import WaterStructure.Formats.TibiReplay
import WaterStructure.Library.ThreadCount
import WaterStructure.Formats.BdxSpoolProtocol
import WaterStructure.Formats.BdxSpoolSafety
import WaterStructure.Library.EffectLog
import WaterStructure.Library.FsPath
import WaterStructure.World.Archive
import WaterStructure.World.ArchiveConfined
import WaterStructure.World.ArchiveWriter
import WaterStructure.World.ArchiveLayout
import WaterStructure.World.ArchivePayload
import WaterStructure.World.ArchiveRecords
import WaterStructure.World.ArchiveRoundTrip
import WaterStructure.Formats.BdxBytes
import WaterStructure.Formats.BdxWriter
import WaterStructure.Formats.BdxCursor
import WaterStructure.Library.ByteReader
import WaterStructure.Formats.BdxStates
import WaterStructure.Formats.BdxWriterCells
import WaterStructure.Formats.BdxRoundTrip
import WaterStructure.Formats.McFunctionArithmetic
import WaterStructure.Formats.IbImportDense
import WaterStructure.Library.JsonText
import WaterStructure.Formats.IbImportNames
import WaterStructure.Library.KeepLast
import WaterStructure.Formats.Kbdx
import WaterStructure.Library.Extremes
import WaterStructure.Formats.KbdxIndex
import WaterStructure.Formats.KbdxRead
import WaterStructure.Formats.KbdxRereads
import WaterStructure.Formats.SchemRandomAccess
import WaterStructure.Formats.AxiomBpRoundTrip
import WaterStructure.Library.JsonCallback
import WaterStructure.Library.ReorderedLoop
import WaterStructure.Formats.FuHongBlocks
import WaterStructure.Formats.FuHong
import WaterStructure.Formats.FuHongPasses
import WaterStructure.Formats.FuHongOrder
import WaterStructure.Formats.FuHongBounds
import WaterStructure.Formats.FuHongPlacements
import WaterStructure.Library.BufferedStream
import WaterStructure.Formats.SchemReaders
import WaterStructure.Library.SelfDelimiting
import WaterStructure.Core.Canonical
import WaterStructure.Library.TagTree
import WaterStructure.Core.CanonicalNbt
import WaterStructure.Core.CanonicalFields
import WaterStructure.Formats.SchemPalettes
import WaterStructure.Library.VersionedSteps
import WaterStructure.Core.StateUpgrade
import WaterStructure.Library.RunningBest
import WaterStructure.Core.JavaCandidates
import WaterStructure.Library.NbtReader
import WaterStructure.Formats.LitematicStream
import WaterStructure.Formats.LitematicSelection
import WaterStructure.Core.SparseBlockRuns
import WaterStructure.Formats.FuHongV5Bijection
import WaterStructure.Formats.FuHongV5Cipher
import WaterStructure.Library.Utf8
import WaterStructure.Formats.BcfChunks
import WaterStructure.Formats.ConstructionChunks
import WaterStructure.Formats.Msgpack
import WaterStructure.Formats.MsgpackChunks
import WaterStructure.Formats.ReportedCounts
import WaterStructure.Library.CoverCount
import WaterStructure.Library.JsonSyntax
import WaterStructure.Formats.FormatRegistry
import WaterStructure.Formats.JsonDetection
import WaterStructure.Core.JavaValues
import WaterStructure.Formats.TaskCommandBuffer
import WaterStructure.Formats.TibiPayload
import WaterStructure.Formats.MsgpackDecoder
import WaterStructure.Formats.SnbtRendering
import WaterStructure.Formats.GangBanStreamPlacements
import WaterStructure.Formats.TimeBuilderAgreement
import WaterStructure.Formats.GangBanChunkPasses
import WaterStructure.Formats.RunAway
import WaterStructure.Formats.RunAwayRuns
import WaterStructure.World.SubChunkPayload
import WaterStructure.World.WorldDatabase
