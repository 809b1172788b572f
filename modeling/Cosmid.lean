import Cosmid.XiomasApart
import Cosmid.NephexFraming
import Cosmid.PopsAgreement
import Cosmid.PopsDatagrams
import Cosmid.Reconnection
import Cosmid.XiomasStopWait
import Cosmid.XiomasBackPressure
import Cosmid.NephexReplay
import Cosmid.NephexClients
import Cosmid.AlgorithmShutdown
import Cosmid.AlgorithmLaunch
import Cosmid.XiomasAccept
import Cosmid.XiomasResync
import Cosmid.NephexProgress
import Cosmid.AckInput
import Cosmid.XiomasCalls
import Cosmid.XiomasInFlight
import Cosmid.XiomasReserved
import Cosmid.NephexDecimation
import Cosmid.NephexWindow
import Cosmid.NephexPacing
import Cosmid.NephexStamps
import Cosmid.PopsStatusLines
import Cosmid.PopsCommands
import Cosmid.XiomasControl
import Cosmid.XiomasHeadBytes
import Cosmid.PopsStow
import Cosmid.TmaStatgen
import Cosmid.XiomasDiscard
import Cosmid.NephexBench
import Cosmid.PopsDriver
import Cosmid.AlgorithmOrder
import Cosmid.FlightLoop
import Cosmid.XiomasStatusPath
import Cosmid.XioHarvFormat
import Cosmid.NephexWatchdog
import Cosmid.XiomasScanner
import Cosmid.XiomasDrain
import Cosmid.PopsFlights
import Cosmid.AckBatches
