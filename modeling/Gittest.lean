import Gittest.Basic
import Gittest.BondKni
import Gittest.BondKniAnswer
import Gittest.BondKniBurst
import Gittest.BondKniCores
import Gittest.BondKniExchange
import Gittest.BondKniFrame
import Gittest.BondKniText
import Gittest.BpfDemo
import Gittest.CreatePath
import Gittest.CreatePathLinks
import Gittest.CreatePathRace
import Gittest.CreatePathSteps
import Gittest.DigitString
import Gittest.Dpdk
import Gittest.EtherFrame
import Gittest.FileTree
import Gittest.HashMap
import Gittest.HashMapFailure
import Gittest.HashMapFiniteMap
import Gittest.HashMapInit
import Gittest.HashMapOwnership
import Gittest.HashMapReinsert
import Gittest.HexString
import Gittest.Ipv6Add
import Gittest.Lib.BigEndian
import Gittest.Lib.Bpf
import Gittest.Lib.Calls
import Gittest.Lib.Circular
import Gittest.Lib.KeyedMap
import Gittest.Lib.Layout
import Gittest.Lib.Ledger
import Gittest.Lib.Mask
import Gittest.Lib.Monitor
import Gittest.Lib.Outcome
import Gittest.Lib.Simulation
import Gittest.Lib.Transition
import Gittest.LinkList
import Gittest.LinkListApart
import Gittest.LinkListBulk
import Gittest.LinkListSequence
import Gittest.LinkTree
import Gittest.LinuxUtils
import Gittest.Memory
import Gittest.Proof.CreatePathCalls
import Gittest.Proof.HashMapHeap
import Gittest.Proof.HashMapOps
import Gittest.Proof.HashMapTable
import Gittest.Proof.LinkListOps
import Gittest.Proof.LinkListPayloads
import Gittest.Proof.LinkListWalk
import Gittest.Proof.QueueOps
import Gittest.Proof.ThreadPoolCalls
import Gittest.Proof.ThreadPoolInvariant
import Gittest.Proof.XRingCallSteps
import Gittest.Proof.XRingCalls
import Gittest.Proof.XRingCreate
import Gittest.Proof.XRingHistory
import Gittest.Proof.XRingInvariant
import Gittest.Proof.XRingSlots
import Gittest.Proof.XRingStep
import Gittest.Queue
import Gittest.QueueStack
import Gittest.Stack
import Gittest.StrIp
import Gittest.StrcmpNocase
import Gittest.Text
import Gittest.ThreadPool
import Gittest.ThreadPoolDestroy
import Gittest.ThreadPoolFailure
import Gittest.ThreadPoolRest
import Gittest.ThreadPoolSafety
import Gittest.Utils
import Gittest.XLog
import Gittest.XLogFile
import Gittest.XLogStop
import Gittest.XLogText
import Gittest.XLogThread
import Gittest.XRing
import Gittest.XRingAlone
import Gittest.XRingBounds
import Gittest.XRingEntries
import Gittest.XRingFifo
import Gittest.XRingHeap
import Gittest.XRingHeapFifo
import Gittest.XRingMpmc
import Gittest.XRingObservers
import Gittest.XRingOwnership
import Gittest.XRingSafety
import Gittest.XRingSize
import Gittest.XRingThreads
import Gittest.XRingTryBest
import Gittest.XRingTryBestPasses
