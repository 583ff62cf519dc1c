import BelProject.Etherbone.NoReads
import BelProject.Etherbone.ExactlyOnce
import BelProject.Etherbone.Addresses
import BelProject.Etherbone.Negotiation
import BelProject.ScuBus.Answers
import BelProject.ScuBus.Multicast
import BelProject.ScuBus.Interrupts
import BelProject.MilScu.FilterRam
import BelProject.MilScu.DelayTimer
import BelProject.Mil.BipolarMessage
import BelProject.MilScu.EventPulses
import BelProject.Fg.Intervals
import BelProject.ScuBus.EchoAccess
import BelProject.Etherbone.Handlers
import BelProject.Etherbone.ErrorRegister
import BelProject.Etherbone.Tunnel
import BelProject.Tools.Refusals
import BelProject.Etherbone.Deadlines
import BelProject.Etherbone.FindByIdentity
import BelProject.Ftm.DueTime
import BelProject.SlaveCore.Validation
import BelProject.SlaveCore.BusResults
import BelProject.Tools.Coverage
import BelProject.SlaveCore.ReplyHeaders
import BelProject.EbMaster.HeaderSum
import BelProject.SlaveCore.EthRx
import BelProject.SlaveCore.StreamWidths
import BelProject.Heap.Service
import BelProject.Lvds.Channel
import BelProject.Lm32.MiniSdb
import BelProject.Fg.QuadSets
import BelProject.Butis.Acceptance
import BelProject.Tools.FlashSector
import BelProject.Tools.FlashProgram
import BelProject.Tools.FlashErase
import BelProject.Dac.Trigger
import BelProject.Dac.Words
import BelProject.Fg.Cb
import BelProject.Fg.Discovery
import BelProject.Tmr.Registers
import BelProject.Tmr.Period
import BelProject.Usb.BaudRate
import BelProject.Lm32.AddressParser
import BelProject.OledDisplay.WbConsole
import BelProject.Adc.Parallel
import BelProject.Adc.Serial
import BelProject.ScuBus.Deglitch
import BelProject.AuxFunctions.Debounce
import BelProject.Usb.Timing
import BelProject.Lm32.Printf
import BelProject.Etherbone.Interleaving
import BelProject.Interop.CoreTrip
