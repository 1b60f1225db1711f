import Hvf.Lib.StepRun
import Hvf.Lib.Bins
import Hvf.Mm.Page
import Hvf.Mm.Buddy
import Hvf.Mm.BuddyMoves
import Hvf.Mm.BuddyInit
import Hvf.Mm.BuddyPartition
import Hvf.Mm.BuddySearch
import Hvf.Mm.BuddyStart
import Hvf.Mm.BuddyZone
import Hvf.Lib.BitField
import Hvf.Mm.Dat
import Hvf.Mm.DatWalk
import Hvf.Errno
import Hvf.Mm.GuestCopy
import Hvf.Mm.GuestCopyExact
import Hvf.Nucleus.Io
import Hvf.Nucleus.IoQueue
import Hvf.Lib.PagedLog
import Hvf.Fs.Spool
import Hvf.Fs.SpoolFile
import Hvf.Fs.SpoolAppend
import Hvf.Fs.SpoolFifo
import Hvf.Lib.Rounds
import Hvf.Guest.GeneralRegs
import Hvf.Guest.GuestRun
import Hvf.Guest.Channel
import Hvf.Guest.SpoolExec
import Hvf.Guest.Storage
import Hvf.Guest.StorageMap
import Hvf.Guest.StorageOld
import Hvf.Guest.StorageRoom
import Hvf.Guest.VirtSys
import Hvf.Guest.ChannelProgram
import Hvf.Guest.SpoolOperand
import Hvf.Guest.InstructionPriv
import Hvf.Guest.Subchannel
import Hvf.Guest.Tsch
import Hvf.Guest.Msch
import Hvf.Nucleus.Mutex
import Hvf.Nucleus.MutexOwner
import Hvf.Lib.Ring
import Hvf.Lib.RingSplice
import Hvf.Nucleus.Sched
import Hvf.Nucleus.CreateTask
import Hvf.Nucleus.SchedPlacement
import Hvf.Nucleus.SchedPreempt
import Hvf.Lib.Bitmap
import Hvf.Mm.Slab
import Hvf.Mm.SlabBook
import Hvf.Mm.SlabReuse
import Hvf.Mm.Malloc
import Hvf.Mm.MallocSmall
import Hvf.Guest.Run
import Hvf.Lib.Lines
import Hvf.Lib.Munch
import Hvf.Nucleus.Lexer
import Hvf.Nucleus.LexerFill
import Hvf.Nucleus.LexerReads
import Hvf.Nucleus.LexerStops
import Hvf.Nucleus.Direct
import Hvf.Nucleus.Config
import Hvf.Nucleus.DirectLines
import Hvf.Nucleus.DirectText
import Hvf.Nucleus.DirectLayout
import Hvf.Nucleus.DirectAuth
import Hvf.Nucleus.DirectStorage
import Hvf.Nucleus.DirectUserid
import Hvf.Nucleus.DirectVdevs
import Hvf.Nucleus.Strdup
import Hvf.Lib.PtrTree
import Hvf.Fs.Bcache
import Hvf.Fs.BcacheBounds
import Hvf.Fs.SpoolRep
import Hvf.Fs.SpoolAtomic
import Hvf.Fs.SpoolPages
import Hvf.Lib.Words
import Hvf.CString
import Hvf.Installer.Mkarchive
import Hvf.Installer.CcwGen
import Hvf.Installer.CcwGenLoads
import Hvf.Installer.Cpio
import Hvf.Installer.CpioRound
import Hvf.Installer.Edf
import Hvf.Lib.Outcome
import Hvf.Installer.EdfMap
import Hvf.Installer.EdfAlloc
import Hvf.Installer.EdfTree
import Hvf.Installer.EdfExtend
import Hvf.Installer.EdfAppend
import Hvf.Lib.Blocks
import Hvf.Digest
import Hvf.Lib.Bytes
import Hvf.Nucleus.Ldep
import Hvf.Nucleus.LdepTable
import Hvf.Drivers.Dasd
import Hvf.Drivers.DasdAddress
import Hvf.Lib.Search
import Hvf.Drivers.Vdevice
import Hvf.Guest.Attach
import Hvf.Guest.AttachRefs
import Hvf.Guest.Online
import Hvf.Guest.Reset
import Hvf.Guest.ResetErases
import Hvf.Guest.RunState
import Hvf.Lib.Calendar
import Hvf.Lib.CardReader
import Hvf.Clock
import Hvf.Lib.Spin
import Hvf.Drivers.DeviceLocks
import Hvf.Drivers.DeviceScan
import Hvf.Drivers.DeviceList
import Hvf.Drivers.DriverPointer
import Hvf.Fs.Edf
import Hvf.Fs.EdfRecord
import Hvf.Lib.ForLoop
import Hvf.Loader.Symtab
import Hvf.Loader.SymtabImage
import Hvf.Guest.IplNss
import Hvf.Guest.IplNssClean
import Hvf.Guest.SegmentCopy
import Hvf.Guest.VdevReads
import Hvf.Guest.Create
import Hvf.Nucleus.LoadConfig
import Hvf.Shell.Operand
import Hvf.Shell.StorePsw
import Hvf.Nucleus.Printf
import Hvf.Shell.DisplayStorage
import Hvf.Shell.Disassm
import Hvf.Shell.DisplayInst
import Hvf.Shell.Handlers
import Hvf.Shell.HandlerSpacing
import Hvf.Shell.Commands
import Hvf.Installer.EdfTrees
import Hvf.Installer.EdfDurable
import Hvf.Installer.BlockTrees
import Hvf.Fs.EdfInstalled
import Hvf.Guest.StorageTables
import Hvf.Guest.Isolation
import Hvf.Installer.EdfSession
import Hvf.Installer.TextRecords
import Hvf.Installer.SaveFile
import Hvf.Installer.CpioEnds
import Hvf.Nucleus.SymtabLookup
import Hvf.Nucleus.SymtabScan
import Hvf.Lib.Follow
import Hvf.Loader.ReadNucleus
import Hvf.Loader.NucleusBlocks
import Hvf.Loader.InstalledNucleus
import Hvf.Nucleus.DumpStack
import Hvf.Lib.Sink
import Hvf.Vsprintf
import Hvf.VsprintfText
import Hvf.Shell.NumberText
