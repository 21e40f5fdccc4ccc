import Gp2Firmware.Lib.WordBytes
import Gp2Firmware.Nand.BlockMap
import Gp2Firmware.UBoot.NandBase
import Gp2Firmware.UBoot.CountLaw
import Gp2Firmware.UBoot.Exhaustion
import Gp2Firmware.UBoot.EraseAgreement
import Gp2Firmware.UBoot.InfoBlock
import Gp2Firmware.UBoot.MapPersistence
import Gp2Firmware.UBoot.InfoLoad
import Gp2Firmware.UBoot.PageCache
import Gp2Firmware.Linux.NandBase
import Gp2Firmware.Linux.BuildersAgree
import Gp2Firmware.Linux.WriteTermination
import Gp2Firmware.Linux.DirtyFlag
import Gp2Firmware.Linux.WriteRecovery
import Gp2Firmware.Linux.SoftwareEcc
import Gp2Firmware.Linux.ChipLock
import Gp2Firmware.Mstar.FailureReports
import Gp2Firmware.Mstar.BadBlockMark
import Gp2Firmware.Mstar.StagingBuffer
import Gp2Firmware.Mstar.ReadReports
import Gp2Firmware.Tsp.DeferredInterrupts
import Gp2Firmware.Tsp.StcSync
import Gp2Firmware.Tsp.SectionAssembly
import Gp2Firmware.Tsp.PesAssembly
import Gp2Firmware.Tsp.DmaWindow
import Gp2Firmware.Tsp.PcrOffset
import Gp2Firmware.Tsp.VersionFilter
import Gp2Firmware.Tsp.SectionRing
import Gp2Firmware.Tsp.EnableRecords
import Gp2Firmware.Tsp.FirmwareCommand
import Gp2Firmware.Tsp.EventSignals
import Gp2Firmware.Emac.TransmitBuffer
import Gp2Firmware.Emac.ReceiveRing
import Gp2Firmware.Emac.MulticastFilter
import Gp2Firmware.Msmailbox.WaitQueue
import Gp2Firmware.Msmailbox.AeonQueue
import Gp2Firmware.Msmailbox.Fire
import Gp2Firmware.Msmailbox.MailBuffer
import Gp2Firmware.Msmailbox.PmRing
import Gp2Firmware.Scaler.PcMode
import Gp2Firmware.Scaler.BestMatch
import Gp2Firmware.Scaler.HandOver
import Gp2Firmware.Scaler.HdmiSearch
import Gp2Firmware.Scaler.PhaseSearch
import Gp2Firmware.Scaler.AutoWidth
import Gp2Firmware.Scaler.CropWindow
import Gp2Firmware.Scaler.GainSearch
import Gp2Firmware.Scaler.GainTermination
import Gp2Firmware.Scaler.GainSteady
import Gp2Firmware.Scaler.GainConvergence
import Gp2Firmware.Scaler.SearchLoss
import Gp2Firmware.Scaler.AutoInStep
import Gp2Firmware.Vd.CriticalSection
import Gp2Firmware.Vd.SourceSync
import Gp2Firmware.Ir.TvLink
import Gp2Firmware.Ir.RepeatTiming
import Gp2Firmware.CmdLg.Nvm
import Gp2Firmware.CmdLg.NvmFailures
import Gp2Firmware.CmdLg.PartitionUpdate
import Gp2Firmware.CmdLg.FlashContents
import Gp2Firmware.CmdLg.RecordedSizes
import Gp2Firmware.CmdLg.PackageVersion
import Gp2Firmware.CmdLg.PackageBounds
import Gp2Firmware.CmdLg.Crc32
import Gp2Firmware.CmdLg.XipPlacement
import Gp2Firmware.CmdLg.Load
import Gp2Firmware.Jpeg.MemoryPool
import Gp2Firmware.Jpeg.HuffmanTree
import Gp2Firmware.Jpeg.TreeCapacity
import Gp2Firmware.Jpeg.OverSubscribed
import Gp2Firmware.Jpeg.DcSizes
import Gp2Firmware.Jpeg.AcScans
import Gp2Firmware.Jpeg.ScansEnd
import Gp2Firmware.Jpeg.PushBack
import Gp2Firmware.Jpeg.RunLength
import Gp2Firmware.Jpeg.Thumbnail
import Gp2Firmware.Jpeg.ExifReads
import Gp2Firmware.Jpeg.BlockTraversal
import Gp2Firmware.Jpeg.ScanErrors
import Gp2Firmware.Jpeg.AllocationFailure
import Gp2Firmware.Jpeg.McuBound
import Gp2Firmware.Jpeg.DriverCalls
import Gp2Firmware.Jpeg.SamplingFactors
import Gp2Firmware.CmdLg.ZmodemReceive
import Gp2Firmware.CmdLg.ZmodemHexHeader
import Gp2Firmware.CmdLg.ZmodemSession
import Gp2Firmware.Minilzo.Packed
