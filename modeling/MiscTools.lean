import MiscTools.B64
import MiscTools.B64Buffers
import MiscTools.B64Codec
import MiscTools.B64Grammar
import MiscTools.Base64
import MiscTools.Blocks
import MiscTools.CStr
import MiscTools.Coro
import MiscTools.CoroPthread
import MiscTools.Counted
import MiscTools.CpuFeature
import MiscTools.Crc
import MiscTools.Crc32
import MiscTools.Crc32Errors
import MiscTools.CrcErrors
import MiscTools.CrcTables
import MiscTools.DsAccount
import MiscTools.DsActivation
import MiscTools.DsBacked
import MiscTools.DsCalls
import MiscTools.DsDyn
import MiscTools.DsDynNames
import MiscTools.DsInactive
import MiscTools.DsInv
import MiscTools.DsNames
import MiscTools.DsProgress
import MiscTools.DsRefused
import MiscTools.DsRegistry
import MiscTools.DsRendezvous
import MiscTools.DsSorted
import MiscTools.DsSound
import MiscTools.DsSteps
import MiscTools.DsSys
import MiscTools.DsTable
import MiscTools.DsWake
import MiscTools.Evrdr
import MiscTools.EvrdrAware
import MiscTools.EvrdrFollow
import MiscTools.Fdio
import MiscTools.FdioDelivery
import MiscTools.FdioLoops
import MiscTools.FdioRange
import MiscTools.FdioSendfile
import MiscTools.FdioSim
import MiscTools.FdioTransfer
import MiscTools.Frelay
import MiscTools.FrelayLimit
import MiscTools.FrelayTurn
import MiscTools.Iorly
import MiscTools.Loops
import MiscTools.Meters
import MiscTools.Mmcu
import MiscTools.Prfm
import MiscTools.PrfmAccum
import MiscTools.PrfmOps
import MiscTools.Queue
import MiscTools.QueueDump
import MiscTools.QueueFifo
import MiscTools.QueueInt
import MiscTools.Raised
import MiscTools.Rings
import MiscTools.Runs
import MiscTools.Shares
import MiscTools.SimpleSort
import MiscTools.SimpleSortGaps
import MiscTools.SimpleSortSwaps
import MiscTools.Sizes
import MiscTools.Slots
import MiscTools.Stamps
import MiscTools.Tiles
import MiscTools.Unalcalc
import MiscTools.UnalignPairs
import MiscTools.Vnodes
import MiscTools.Wbuft
import MiscTools.WbuftOpts
import MiscTools.WbuftPrealloc
import MiscTools.WbuftRounds
import MiscTools.WbuftRun
import MiscTools.WbuftWrite
import MiscTools.Writer
import MiscTools.X86Stack
import MiscTools.Xvdat
import MiscTools.XvdatGrowth
import MiscTools.XvdatSlots
import MiscTools.XvdatZero
