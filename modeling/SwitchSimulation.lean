import SwitchSimulation.QueueFree
import SwitchSimulation.HeapParents
import SwitchSimulation.HeapAccess
import SwitchSimulation.HashTableResize
import SwitchSimulation.HashTableOwnership
import SwitchSimulation.Growth
import SwitchSimulation.HostSlots
import SwitchSimulation.HostDescriptors
import SwitchSimulation.ScheduleOrder
import SwitchSimulation.ScheduleProgress
import SwitchSimulation.Saturation
import SwitchSimulation.Starvation
import SwitchSimulation.SwitchDelivery
import SwitchSimulation.SwitchMemory
import SwitchSimulation.EventTableLaw
import SwitchSimulation.SimulatorEvents
import SwitchSimulation.SimulatorCalls
import SwitchSimulation.Amortised
import SwitchSimulation.Counting
import SwitchSimulation.GrowthCost
import SwitchSimulation.HeapUse
import SwitchSimulation.HotSpot
import SwitchSimulation.Leak
import SwitchSimulation.Pairing
import SwitchSimulation.QueueRing
import SwitchSimulation.RingSwitch
import SwitchSimulation.SaturationStart
import SwitchSimulation.SchedulePairing
import SwitchSimulation.ScheduleSymmetry
import SwitchSimulation.SimulatorOrder
import SwitchSimulation.SwitchIsolation
import SwitchSimulation.HashTableWordMap
import SwitchSimulation.HostTableMemory
import SwitchSimulation.LoneRequest
import SwitchSimulation.SimulatorRounds
import SwitchSimulation.SimulatorReleases
import SwitchSimulation.SwitchPackets
import SwitchSimulation.WordRuns
