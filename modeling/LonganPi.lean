import LonganPi.Lib.Run
import LonganPi.Lib.Arena
import LonganPi.Lib.Chain
import LonganPi.Lib.Links
import LonganPi.Lib.Bits
import LonganPi.Lib.Words
import LonganPi.Lib.Fields
import LonganPi.Lib.Cache
import LonganPi.Lib.Runs
import LonganPi.Lib.Staircase
import LonganPi.Lib.Pairs
import LonganPi.Lib.Bytes
import LonganPi.Lib.PriorityList
import LonganPi.Lib.Spin
import LonganPi.Lib.Polling
import LonganPi.Lib.Trace
import LonganPi.Lib.Serial
import LonganPi.Lib.Reorder
import LonganPi.Lib.Accounts
import LonganPi.Lib.Cursor
import LonganPi.Kernel
import LonganPi.Iommu.Pgtable
import LonganPi.Iommu.Entries
import LonganPi.Iommu.Tables
import LonganPi.Iommu.MapUnmap
import LonganPi.Iommu.Ownership
import LonganPi.Iommu.Refine
import LonganPi.Iommu.Tlb
import LonganPi.Iommu.StaleTlb
import LonganPi.Iommu.Ranges
import LonganPi.Iommu.MapRange
import LonganPi.Iommu.UnmapHoles
import LonganPi.Iommu.Dump
import LonganPi.Iommu.IovaTrace
import LonganPi.Iommu.Fault
import LonganPi.Iommu.ReservedRegions
import LonganPi.Iommu.Domain
import LonganPi.Iommu.DomainLifecycle
import LonganPi.Ve.Locks
import LonganPi.Ve.LockOwnership
import LonganPi.Ve.ProcInfo
import LonganPi.Ve.Handshake
import LonganPi.Ve.Clock
import LonganPi.Ve.EngineCount
import LonganPi.Ve.ClockFailure
import LonganPi.Ve.Interrupt
import LonganPi.Ve.DebugInfo
import LonganPi.Ve.DebugTable
import LonganPi.Ve.InfoShow
import LonganPi.Ve.CaseLoad
import LonganPi.Ve.LoadTable
import LonganPi.Ve.LoadLevel
import LonganPi.Ve.TaskQueue
import LonganPi.Ve.TaskOrder
import LonganPi.Ve.EngineLock
import LonganPi.Ve.DmaBuf
import LonganPi.Ve.DmaBufList
import LonganPi.Pwm.Chip
import LonganPi.Pwm.Divider
import LonganPi.Pwm.Views
import LonganPi.Pwm.Effect
import LonganPi.Pwm.Controller
import LonganPi.Pwm.History
import LonganPi.Pwm.Gating
import LonganPi.Pwm.Waveform
import LonganPi.Pwm.Request
import LonganPi.Pwm.Dual
import LonganPi.Pwm.DeadZone
import LonganPi.Fan.Hysteresis
import LonganPi.Cdrom.Geometry
import LonganPi.Cedrus.SkipBits
import LonganPi.Wifi.RxReorder
import LonganPi.Wifi.RxOrder
import LonganPi.Wifi.RxFrame
import LonganPi.Wifi.RxSystem
import LonganPi.Wifi.RxConserve
import LonganPi.Wifi.RxTimer
import LonganPi.Wifi.TxQueues
import LonganPi.Wifi.TxSchedule
import LonganPi.Wifi.TxSafety
import LonganPi.Wifi.TxProgress
import LonganPi.Wifi.TxOrder
import LonganPi.Wifi.UsbTx
import LonganPi.Wifi.UsbTxFlow
import LonganPi.Wifi.UsbTxOrder
import LonganPi.Wifi.CmdMgr
import LonganPi.Wifi.CmdSafety
import LonganPi.Wifi.CmdProtocol
import LonganPi.Wifi.CmdWaker
import LonganPi.Wifi.CmdProgress
import LonganPi.Wifi.CmdForgotten
