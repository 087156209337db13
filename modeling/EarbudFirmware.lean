import EarbudFirmware.Lib.Transition
import EarbudFirmware.Lib.NorMemory
import EarbudFirmware.Lib.Ownership
import EarbudFirmware.Norflash.State
import EarbudFirmware.Norflash.Queue
import EarbudFirmware.Norflash.Api
import EarbudFirmware.Norflash.Invariant
import EarbudFirmware.Norflash.WellFormed
import EarbudFirmware.Norflash.Steps
import EarbudFirmware.Norflash.Sync
import EarbudFirmware.Norflash.Pools
import EarbudFirmware.Norflash.Rejection
import EarbudFirmware.Norflash.Cache
import EarbudFirmware.Norflash.Content
import EarbudFirmware.Norflash.Layout
import EarbudFirmware.Norflash.Logical
import EarbudFirmware.Norflash.DrainEquivalence
import EarbudFirmware.Norflash.ReadYourWrites
import EarbudFirmware.Norflash.EraseKept
import EarbudFirmware.Norflash.FlushAll
import EarbudFirmware.Norflash.Remap
import EarbudFirmware.Norflash.Protection
import EarbudFirmware.Norflash.AppFlash
import EarbudFirmware.Norflash.AppProgram
import EarbudFirmware.Norflash.SyncReturns
import EarbudFirmware.Lib.InOrder
import EarbudFirmware.Lib.Pieces
import EarbudFirmware.Lib.Ring
import EarbudFirmware.Lib.RingMarks
import EarbudFirmware.Lib.AckedQueue
import EarbudFirmware.Lib.Framing
import EarbudFirmware.Lib.Keyed
import EarbudFirmware.Lib.RecordArray
import EarbudFirmware.Lib.RecentlyUsed
import EarbudFirmware.Lib.DeltaList
import EarbudFirmware.Lib.LinkedList
import EarbudFirmware.Lib.FrameRing
import EarbudFirmware.Lib.Tiling
import EarbudFirmware.Utils.Bytes
import EarbudFirmware.Utils.Crc32
import EarbudFirmware.Utils.CQueue
import EarbudFirmware.Lib.Simulation
import EarbudFirmware.Utils.ByteDeque
import EarbudFirmware.Nv.Record
import EarbudFirmware.Nv.Flush
import EarbudFirmware.Nv.Integrity
import EarbudFirmware.Nv.PowerLoss
import EarbudFirmware.Nv.Recovery
import EarbudFirmware.Nv.Extension
import EarbudFirmware.Nv.SyncFlush
import EarbudFirmware.Nv.BleRecord
import EarbudFirmware.Nv.BtRecord
import EarbudFirmware.Ota.State
import EarbudFirmware.Ota.Flash
import EarbudFirmware.Ota.Handlers
import EarbudFirmware.Ota.Specs
import EarbudFirmware.Ota.Applied
import EarbudFirmware.Ota.InStep
import EarbudFirmware.Ota.Reception
import EarbudFirmware.Hwtimer.Timers
import EarbudFirmware.Hwtimer.Outcomes
import EarbudFirmware.Hwtimer.Ranged
import EarbudFirmware.Hwtimer.Timely
import EarbudFirmware.Hwtimer.NotEarly
import EarbudFirmware.Hwtimer.OthersKept
import EarbudFirmware.Hwtimer.Heap
import EarbudFirmware.Hwtimer.HeapLoops
import EarbudFirmware.Hwtimer.Linked
import EarbudFirmware.Hwtimer.Refines
import EarbudFirmware.Hwtimer.ExactlyOnce
import EarbudFirmware.Tota.CmdHandler
import EarbudFirmware.Tota.Supervision
import EarbudFirmware.AiOta.Session
import EarbudFirmware.AiOta.Copying
import EarbudFirmware.AiOta.Resume
import EarbudFirmware.AiOta.Resources
import EarbudFirmware.A2dp.CpFrames
import EarbudFirmware.A2dp.CpOrder
import EarbudFirmware.A2dp.SbcFeed
import EarbudFirmware.A2dp.AacStore
import EarbudFirmware.A2dp.LdacStore
import EarbudFirmware.A2dp.SysfreqBoost
import EarbudFirmware.A2dp.SbcDiscard
import EarbudFirmware.A2dp.OutFrames
import EarbudFirmware.Tota.Packets
import EarbudFirmware.Tota.Reception
import EarbudFirmware.Tota.Delivery
import EarbudFirmware.Tota.Survival
import EarbudFirmware.Tota.Damage
import EarbudFirmware.Tota.RxBuffers
import EarbudFirmware.Tota.SendBuffers
import EarbudFirmware.Tota.Conn
import EarbudFirmware.Tota.FlashProgram
import EarbudFirmware.Tota.DataTransceiver
import EarbudFirmware.Lzma.CopyImage
import EarbudFirmware.Lzma.Chunks
import EarbudFirmware.Lzma.Install
import EarbudFirmware.Lzma.Settle
import EarbudFirmware.Rpc.Calls
import EarbudFirmware.Nv.LogSection
import EarbudFirmware.Nv.LogOrder
import EarbudFirmware.Utils.Kfifo
import EarbudFirmware.Utils.Crc16
import EarbudFirmware.Utils.Xmodem
import EarbudFirmware.Utils.XmodemPacket
import EarbudFirmware.Utils.XmodemStream
import EarbudFirmware.Utils.XmodemTransfer
import EarbudFirmware.Utils.KeepNewest
import EarbudFirmware.Nv.LogRemain
import EarbudFirmware.Nv.CrashDump
import EarbudFirmware.Nv.FactorySection
import EarbudFirmware.Nv.AudioSection
import EarbudFirmware.Nv.Prompt
import EarbudFirmware.Nv.PromptSlots
import EarbudFirmware.Tota.StreamBuffer
import EarbudFirmware.Hal.Sysfreq
import EarbudFirmware.Hal.Key
import EarbudFirmware.Hal.KeyClicks
import EarbudFirmware.Hal.KeyDebounce
import EarbudFirmware.Hal.Trace
import EarbudFirmware.Hal.TraceTransfer
import EarbudFirmware.Hal.TraceStream
import EarbudFirmware.Hal.Transq
import EarbudFirmware.Hal.TransqQueues
import EarbudFirmware.Hal.TransqSteps
import EarbudFirmware.Hal.TransqRefines
import EarbudFirmware.Hal.TransqDelivery
import EarbudFirmware.Hal.RmtIpc
import EarbudFirmware.Hal.RmtIpcLists
import EarbudFirmware.Hal.RmtIpcDelivery
import EarbudFirmware.Rpc.Packets
import EarbudFirmware.Rpc.Registry
import EarbudFirmware.AiOta.SanityCheck
import EarbudFirmware.AiOta.Relay
import EarbudFirmware.Ota.Sequential
import EarbudFirmware.Ota.Segments
import EarbudFirmware.Ota.ResultQuery
import EarbudFirmware.Ota.UpgradeLog
import EarbudFirmware.Ota.Malformed
import EarbudFirmware.Ota.RelayFlow
import EarbudFirmware.Apps.TraceRx
import EarbudFirmware.Apps.ChipBridge
import EarbudFirmware.Apps.ChipBridgeWait
import EarbudFirmware.Apps.ChipBridgeQueue
import EarbudFirmware.Apps.ChipBridgeLink
import EarbudFirmware.Apps.ChipBridgeDelivery
import EarbudFirmware.Apps.UartDma
import EarbudFirmware.Audio.RingMerge
import EarbudFirmware.Audio.PromptMix
import EarbudFirmware.Audio.PromptStop
import EarbudFirmware.Audio.XtalSync
import EarbudFirmware.Audio.XtalSyncNew
import EarbudFirmware.Ble.ModeSwitch
import EarbudFirmware.Ble.WhiteList
import EarbudFirmware.Ble.Scan
import EarbudFirmware.Ble.Serialised
import EarbudFirmware.Ble.Served
import EarbudFirmware.Ble.CustomCmd
import EarbudFirmware.Ble.CustomCmdSupervision
import EarbudFirmware.Ble.UpdateParam
import EarbudFirmware.Ble.UpdateConverges
