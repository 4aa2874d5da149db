import Sargantana.Lib.StateMachine
import Sargantana.Lib.Renaming
import Sargantana.RenameCycle
import Sargantana.RenameReady
import Sargantana.RenameRecovery
import Sargantana.GraduationList
import Sargantana.CsrInterface
import Sargantana.GraduationException
import Sargantana.LsqIntegrity
import Sargantana.LsqVariants
import Sargantana.LsqOrdering
import Sargantana.StoreCommit
import Sargantana.ScalarSchedule
import Sargantana.WritebackPort
import Sargantana.LoadDelivery
import Sargantana.VaguCoverage
import Sargantana.VectorCompletion
import Sargantana.PtwCache
import Sargantana.TlbAgreement
import Sargantana.WalkService
import Sargantana.CsrPrivilege
import Sargantana.CsrIsolation
import Sargantana.IcacheSoundness
import Sargantana.NcFetch
import Sargantana.FetchPairing
import Sargantana.AxiReadService
import Sargantana.AxiWriteService
import Sargantana.IcacheFill
import Sargantana.VsetAgreement
import Sargantana.FenceAlone
import Sargantana.DualRetirement
import Sargantana.ScalarDivision
import Sargantana.ScalarProduct
import Sargantana.VdivShortcut
import Sargantana.BranchResolution
import Sargantana.StridedLoads
import Sargantana.UnitStores
import Sargantana.VmulSchedule
import Sargantana.VredSchedule
import Sargantana.Vshift
import Sargantana.DcacheInterface
import Sargantana.Vnclip
import Sargantana.VsmulSchedule
import Sargantana.Vsaaddsub
import Sargantana.CsrInterrupts
import Sargantana.CsrRegisters
import Sargantana.TrapDestination
import Sargantana.CsrAccess
import Sargantana.VsetLength
import Sargantana.VectorPermutation
import Sargantana.VectorSaturation
import Sargantana.VxsatAccrual
import Sargantana.PteValidation
import Sargantana.ReturnAddressStack
import Sargantana.PlruReplacement
import Sargantana.Vcomp
import Sargantana.LoadExtraction
import Sargantana.FpDecoder
import Sargantana.RetiredInstructions
import Sargantana.FetchRouting
import Sargantana.VloadAssembly
import Sargantana.FaultOnlyFirst
import Sargantana.ReplayChains
import Sargantana.ReplayOrder
import Sargantana.DataResize
import Sargantana.FlushController
import Sargantana.MissHandler
import Sargantana.CmoCompletion
import Sargantana.CacheControl
import Sargantana.CacheOrder
