import Mathlib.Data.List.Nodup
import Mathlib.Data.Nat.Bitwise
import Vdp.Lib.Calls

/-! `Port::configure`, which stands twice in the repository. The two copies issue the same
calls to the driver, but round the number of cores to an even one on different sides of
`rte_eth_dev_configure`. The driver is any function of what it was asked before. -/
namespace Vdp.PortConfigure
open Lib.Calls (Log Caller issue issueAll issueAllFlatMap issueAllCons issueAllConsOk issueAllLog issueAllEach
  issueAllSucceeds)

structure Bindings where
  ethMqRxRss : UInt32
  rteEtherMaxLen : UInt32
  devRxOffloadChecksum : UInt32
  ethRssIp : UInt32
  ethRssTcp : UInt32
  ethRssUdp : UInt32
  ethRssSctp : UInt32
  ethRssL2Payload : UInt32
  devTxOffloadMbufFastFree : UInt32

/- What the code sets of `rte_eth_conf`; the key is the array its pointer leads to. -/
structure EthConf where
  rxMqMode : UInt32
  maxRxPktLen : UInt32
  splitHdrSize : UInt16
  rxOffloads : UInt64
  rssHf : UInt64
  rssKey : List UInt8
  txMqMode : UInt32
  txOffloads : UInt64
  deriving DecidableEq, Repr

structure DevInfo (RxConf TxConf : Type) where
  flowTypeRssOffloads : UInt64
  txOffloadCapa : UInt64
  defaultRxconf : RxConf
  defaultTxconf : TxConf

structure Port (RxConf TxConf : Type) where
  id : UInt16
  devInfo : DevInfo RxConf TxConf

inductive Call (RxConf TxConf Pool : Type) where
  | devConfigure (id nbRx nbTx : UInt16) (conf : EthConf)
  | rxQueueSetup (id i nbDesc : UInt16) (socket : UInt32) (conf : RxConf) (mempool : Pool)
  | txQueueSetup (id i nbDesc : UInt16) (socket : UInt32) (conf : TxConf)
  | promiscuousEnable (id : UInt16)
  deriving DecidableEq, Repr

structure Answer where
  code : Int32
  errno : Int
  deriving DecidableEq, Repr

structure Driver (RxConf TxConf Pool : Type) where
  answer : Log (Call RxConf TxConf Pool) Answer → Call RxConf TxConf Pool → Answer
  socketId : (id : UInt16) → Int32

inductive PortError where
  | noDevice
  | invalid
  | noSupport
  | noMem
  | badVal
  deriving DecidableEq, Repr

def PortError.new (errno : Int) : PortError := match errno with
  | 19 => .noDevice
  | 22 => .invalid
  | 95 => .noSupport
  | 12 => .noMem
  | _ => .badVal

def judge (a : Answer) : Except PortError Unit := if a.code = 0 then .ok () else .error (.new a.errno)

variable {RxConf TxConf Pool : Type}

def defaultRssHf (b : Bindings) : UInt64 :=
  (b.ethRssIp ||| b.ethRssTcp ||| b.ethRssUdp ||| b.ethRssSctp ||| b.ethRssL2Payload).toUInt64

def rteMpRxDescDefault : UInt16 := 512
def rteMpTxDescDefault : UInt16 := 512

def rssSymmetricKey : List UInt8 := (List.replicate 20 [0x6d, 0x5a]).flatten

def ethConf (b : Bindings) (devInfo : DevInfo RxConf TxConf) : EthConf where
  rxMqMode := b.ethMqRxRss
  maxRxPktLen := b.rteEtherMaxLen
  splitHdrSize := 0
  rxOffloads := b.devRxOffloadChecksum.toUInt64
  rssHf := defaultRssHf b &&& devInfo.flowTypeRssOffloads
  rssKey := rssSymmetricKey
  txMqMode := 0
  txOffloads :=
    let offloads : UInt64 := 0x00000002 ||| 0x00000004 ||| 0x00000008
    if devInfo.txOffloadCapa &&& b.devTxOffloadMbufFastFree.toUInt64 > 0 then
      offloads ||| b.devTxOffloadMbufFastFree.toUInt64
    else offloads

def indices (nCores : UInt16) : List UInt16 := (List.range nCores.toNat).map UInt16.ofNat

/- The addition wraps at 65535, as in a release build; a debug build ends there. -/
def toEven (numCores : UInt16) : UInt16 := if numCores % 2 = 1 then numCores + 1 else numCores

section Code
variable (b : Bindings) (driver : Driver RxConf TxConf Pool) (port : Port RxConf TxConf) (mempool : Pool)

def call (c : Call RxConf TxConf Pool) : Caller (Call RxConf TxConf Pool) Answer PortError Unit :=
  issue driver.answer judge c

def setUpRx (i : UInt16) : Call RxConf TxConf Pool :=
  .rxQueueSetup port.id i rteMpRxDescDefault (driver.socketId port.id).toUInt32 port.devInfo.defaultRxconf mempool

def setUpTx (i : UInt16) : Call RxConf TxConf Pool :=
  .txQueueSetup port.id i rteMpTxDescDefault (driver.socketId port.id).toUInt32 port.devInfo.defaultTxconf

/- What the copies share: they differ in the number they declare. -/
def configureWith (declare nCores : UInt16) : Caller (Call RxConf TxConf Pool) Answer PortError Unit := do
  call driver (.devConfigure port.id declare declare (ethConf b port.devInfo))
  (indices nCores).forM fun i => do
    call driver (setUpRx driver port mempool i)
    call driver (setUpTx driver port i)
  call driver (.promiscuousEnable port.id)

def L3enginelib.configure (numCores : UInt16) : Caller (Call RxConf TxConf Pool) Answer PortError Unit :=
  let nCores := toEven numCores
  configureWith b driver port mempool numCores nCores

def DpdkLoop.configure (numCores : UInt16) : Caller (Call RxConf TxConf Pool) Answer PortError Unit :=
  let nCores := toEven numCores
  configureWith b driver port mempool nCores nCores

def queueCalls (i : UInt16) : List (Call RxConf TxConf Pool) :=
  [setUpRx driver port mempool i, setUpTx driver port i]

def setUpCalls (nCores : UInt16) : List (Call RxConf TxConf Pool) :=
  (indices nCores).flatMap (queueCalls driver port mempool) ++ [.promiscuousEnable port.id]

theorem configureCalls (declare nCores : UInt16) :
    configureWith b driver port mempool declare nCores = issueAll driver.answer judge
      (.devConfigure port.id declare declare (ethConf b port.devInfo) :: setUpCalls driver port mempool nCores) := by
  have body : ∀ i, (do
      call driver (setUpRx driver port mempool i)
      call driver (setUpTx driver port i)) = issueAll driver.answer judge (queueCalls driver port mempool i) := by
    intro i
    simp [issueAll, queueCalls, call]
  simp only [configureWith, body, issueAllFlatMap]
  simp [setUpCalls, issueAll, call]

end Code

def transmitQueue (queueId : UInt16) : UInt16 := queueId ^^^ 1

def succeeded (events : Log (Call RxConf TxConf Pool) Answer) : List (Call RxConf TxConf Pool) :=
  (events.filter (fun e => e.2.code = 0)).map Prod.fst

def declares (id : UInt16) : Call RxConf TxConf Pool → Option (UInt16 × UInt16)
  | .devConfigure port nbRx nbTx _ => if port = id then some (nbRx, nbTx) else none
  | _ => none

def declared (id : UInt16) (past : Log (Call RxConf TxConf Pool) Answer) : UInt16 × UInt16 :=
  ((succeeded past).filterMap (declares id)).getLastD (0, 0)

def rxIndex (id : UInt16) : Call RxConf TxConf Pool → Option UInt16
  | .rxQueueSetup port i _ _ _ _ => if port = id then some i else none
  | _ => none

def txIndex (id : UInt16) : Call RxConf TxConf Pool → Option UInt16
  | .txQueueSetup port i _ _ _ => if port = id then some i else none
  | _ => none

def rxSetUps (id : UInt16) (events : Log (Call RxConf TxConf Pool) Answer) : List UInt16 :=
  (succeeded events).filterMap (rxIndex id)

def txSetUps (id : UInt16) (events : Log (Call RxConf TxConf Pool) Answer) : List UInt16 :=
  (succeeded events).filterMap (txIndex id)

section Numbers

theorem toEvenNat {numCores : UInt16} (few : numCores ≤ 65534) :
    (toEven numCores).toNat = numCores.toNat + numCores.toNat % 2 := by
  have bound : numCores.toNat ≤ 65534 := UInt16.le_iff_toNat_le.mp few
  have parity : numCores % 2 = 1 ↔ numCores.toNat % 2 = 1 := by
    rw [← UInt16.toNat_inj, UInt16.toNat_mod]
    rfl
  unfold toEven
  split
  · rename_i odd
    have rest := parity.mp odd
    rw [UInt16.toNat_add, rest]
    simp only [UInt16.reduceToNat]
    omega
  · rename_i even
    have rest : ¬ numCores.toNat % 2 = 1 := fun odd => even (parity.mpr odd)
    omega

theorem siblingBelow {q numCores : UInt16} (few : numCores ≤ 65534) (below : q < numCores) :
    transmitQueue q < toEven numCores := by
  have less : q.toNat < numCores.toNat := UInt16.lt_iff_toNat_lt.mp below
  have pair : (transmitQueue q).toNat = q.toNat ^^^ 1 := UInt16.toNat_xor q 1
  rw [UInt16.lt_iff_toNat_lt, toEvenNat few, pair]
  rcases Nat.even_or_odd q.toNat with even | odd
  · rw [Nat.xor_one_of_even even]
    have rest := Nat.even_iff.mp even
    omega
  · rw [Nat.xor_one_of_odd odd]
    omega

theorem toEvenAtLeast {numCores : UInt16} (few : numCores ≤ 65534) : numCores ≤ toEven numCores := by
  rw [UInt16.le_iff_toNat_le, toEvenNat few]
  exact Nat.le_add_right _ _

theorem indexNat {k : Nat} {nCores : UInt16} (below : k < nCores.toNat) : (UInt16.ofNat k).toNat = k := by
  have width := nCores.toNat_lt
  exact UInt16.toNat_ofNat_of_lt' (Nat.lt_trans below width)

theorem memIndices {i nCores : UInt16} : i ∈ indices nCores ↔ i < nCores := by
  simp only [indices, List.mem_map, List.mem_range, UInt16.lt_iff_toNat_lt]
  constructor
  · rintro ⟨k, below, rfl⟩
    rwa [indexNat below]
  · intro below
    exact ⟨i.toNat, below, UInt16.ofNat_toNat⟩

theorem nodupIndices (nCores : UInt16) : (indices nCores).Nodup := by
  refine List.nodup_range.map_on ?_
  intro x below y under same
  rw [List.mem_range] at below under
  have equal := congrArg UInt16.toNat same
  rwa [indexNat below, indexNat under] at equal

end Numbers

section SetUps
variable (driver : Driver RxConf TxConf Pool) (port : Port RxConf TxConf) (mempool : Pool)

theorem queueIndices (is : List UInt16) :
    (is.flatMap (queueCalls driver port mempool)).filterMap (rxIndex port.id) = is ∧
      (is.flatMap (queueCalls driver port mempool)).filterMap (txIndex port.id) = is := by
  induction is with
  | nil => exact ⟨rfl, rfl⟩
  | cons i rest ih =>
    obtain ⟨receive, transmit⟩ := ih
    constructor
    · simp [queueCalls, setUpRx, setUpTx, rxIndex, List.filterMap_cons, receive]
    · simp [queueCalls, setUpRx, setUpTx, txIndex, List.filterMap_cons, transmit]

theorem setUpIndices (nCores : UInt16) :
    (setUpCalls driver port mempool nCores).filterMap (rxIndex port.id) = indices nCores ∧
      (setUpCalls driver port mempool nCores).filterMap (txIndex port.id) = indices nCores := by
  obtain ⟨receive, transmit⟩ := queueIndices driver port mempool (indices nCores)
  constructor
  · rw [setUpCalls, List.filterMap_append, receive]
    exact List.append_nil _
  · rw [setUpCalls, List.filterMap_append, transmit]
    exact List.append_nil _

end SetUps

section Runs
variable {b : Bindings} {driver : Driver RxConf TxConf Pool} {port : Port RxConf TxConf} {mempool : Pool}

theorem judgeOk {a : Answer} : judge a = .ok () ↔ a.code = 0 := by
  unfold judge
  split <;> simp_all

theorem succeededAll {events : Log (Call RxConf TxConf Pool) Answer} (fine : ∀ e ∈ events, judge e.2 = .ok ()) :
    succeeded events = events.map Prod.fst := by
  have all : events.filter (fun e => e.2.code = 0) = events :=
    List.filter_eq_self.mpr (fun e member => decide_eq_true (judgeOk.mp (fine e member)))
  rw [succeeded, all]

theorem declaredKept {id : UInt16} {past : Log (Call RxConf TxConf Pool) Answer} {c : Call RxConf TxConf Pool}
    (a : Answer) (other : declares id c = none) : declared id (past ++ [(c, a)]) = declared id past := by
  by_cases good : a.code = 0 <;> simp [declared, succeeded, good, other]

theorem declaredNow {id nbRx nbTx : UInt16} {conf : EthConf} (past : Log (Call RxConf TxConf Pool) Answer)
    {a : Answer} (good : a.code = 0) : declared id (past ++ [(.devConfigure id nbRx nbTx conf, a)]) = (nbRx, nbTx) := by
  simp [declared, succeeded, good, declares]

theorem memSetUpCalls {nCores : UInt16} {c : Call RxConf TxConf Pool} :
    c ∈ setUpCalls driver port mempool nCores ↔
      (∃ i < nCores, c = setUpRx driver port mempool i ∨ c = setUpTx driver port i) ∨
        c = .promiscuousEnable port.id := by
  simp only [setUpCalls, queueCalls, List.mem_append, List.mem_flatMap, List.mem_pair, List.mem_singleton, memIndices]

theorem setUpsDeclareNothing {nCores : UInt16} {c : Call RxConf TxConf Pool}
    (member : c ∈ setUpCalls driver port mempool nCores) (id : UInt16) : declares id c = none := by
  obtain ⟨i, _, rfl | rfl⟩ | rfl := memSetUpCalls.mp member <;> rfl

/- What an `Ok` says: the calls were all issued and none failed, and each pair of queues was
set up in a state with the declared count. -/
structure Configured (driver : Driver RxConf TxConf Pool) (port : Port RxConf TxConf) (mempool : Pool)
    (declare nCores : UInt16) (now events : Log (Call RxConf TxConf Pool) Answer) : Prop where
  receive : rxSetUps port.id events = indices nCores
  transmit : txSetUps port.id events = indices nCores
  counts : declared port.id now = (declare, declare)
  each : ∀ c ∈ setUpCalls driver port mempool nCores,
    ∃ before, declared port.id before = (declare, declare) ∧ (driver.answer before c).code = 0

theorem configureOk {declare nCores : UInt16} {past now : Log (Call RxConf TxConf Pool) Answer}
    (ok : (configureWith b driver port mempool declare nCores).run.run past = (.ok (), now)) :
    ∃ events, now = past ++ events ∧ Configured driver port mempool declare nCores now events := by
  rw [configureCalls] at ok
  obtain ⟨events, same, asked, fine⟩ := issueAllLog ok
  obtain ⟨first, rest⟩ := issueAllConsOk ok
  obtain ⟨counts, each⟩ := issueAllEach (fun past => declared port.id past = (declare, declare))
    (fun member kept => (declaredKept _ (setUpsDeclareNothing member port.id)).trans kept)
    (declaredNow past (judgeOk.mp first)) rest
  have calls := (succeededAll fine).trans asked
  obtain ⟨receive, transmit⟩ := setUpIndices driver port mempool nCores
  refine ⟨events, same, ?_⟩
  constructor
  case receive =>
    rw [rxSetUps, calls, List.filterMap_cons]
    exact receive
  case transmit =>
    rw [txSetUps, calls, List.filterMap_cons]
    exact transmit
  case counts => exact counts
  case each =>
    intro c member
    obtain ⟨before, met, good⟩ := each c member
    exact ⟨before, met, judgeOk.mp good⟩

end Runs

structure Bounded (driver : Driver RxConf TxConf Pool) : Prop where
  rx : ∀ past id i nbDesc socket conf mempool, (declared id past).1 ≤ i →
    (driver.answer past (.rxQueueSetup id i nbDesc socket conf mempool)).code ≠ 0
  tx : ∀ past id i nbDesc socket conf, (declared id past).2 ≤ i →
    (driver.answer past (.txQueueSetup id i nbDesc socket conf)).code ≠ 0

structure Cooperative (driver : Driver RxConf TxConf Pool) : Prop where
  configures : ∀ past id n conf, n ≤ 1024 → (driver.answer past (.devConfigure id n n conf)).code = 0
  rx : ∀ past id i nbDesc socket conf mempool,
    (driver.answer past (.rxQueueSetup id i nbDesc socket conf mempool)).code = 0 ↔ i < (declared id past).1
  tx : ∀ past id i nbDesc socket conf,
    (driver.answer past (.txQueueSetup id i nbDesc socket conf)).code = 0 ↔ i < (declared id past).2
  promiscuous : ∀ past id, (driver.answer past (.promiscuousEnable id)).code = 0

theorem cooperativeBounded {driver : Driver RxConf TxConf Pool} (cooperative : Cooperative driver) :
    Bounded driver where
  rx past id i nbDesc socket conf mempool beyond good :=
    UInt16.not_lt.mpr beyond ((cooperative.rx past id i nbDesc socket conf mempool).mp good)
  tx past id i nbDesc socket conf beyond good :=
    UInt16.not_lt.mpr beyond ((cooperative.tx past id i nbDesc socket conf).mp good)

def queueDriver : Driver Unit Unit Unit where
  answer past
    | .devConfigure _ nbRx nbTx _ => ⟨if nbRx ≤ 1024 ∧ nbTx ≤ 1024 then 0 else -22, 22⟩
    | .rxQueueSetup id i _ _ _ _ => ⟨if i < (declared id past).1 then 0 else -22, 22⟩
    | .txQueueSetup id i _ _ _ => ⟨if i < (declared id past).2 then 0 else -22, 22⟩
    | .promiscuousEnable _ => ⟨0, 0⟩
  socketId _ := 0

theorem queueDriverCooperative : Cooperative queueDriver where
  configures past id n conf allowed := if_pos ⟨allowed, allowed⟩
  rx past id i nbDesc socket conf mempool := by simp [queueDriver]
  tx past id i nbDesc socket conf := by simp [queueDriver]
  promiscuous past id := rfl

structure Paired (id numCores : UInt16) (counts : UInt16 × UInt16) (events : Log (Call RxConf TxConf Pool) Answer) :
    Prop where
  receive : ∀ q < numCores, (rxSetUps id events).count q = 1 ∧ q < counts.1
  transmit : ∀ q < numCores, (txSetUps id events).count (transmitQueue q) = 1 ∧ transmitQueue q < counts.2
  within : (∀ i ∈ rxSetUps id events, i < counts.1) ∧ ∀ i ∈ txSetUps id events, i < counts.2

def PairsQueues (id : UInt16)
    (configure : UInt16 → Caller (Call RxConf TxConf Pool) Answer PortError Unit) : Prop :=
  ∀ numCores ≤ 65534, ∀ past now, (configure numCores).run.run past = (.ok (), now) →
    ∃ events, now = past ++ events ∧ Paired id numCores (declared id now) events

section Pairing
variable {driver : Driver RxConf TxConf Pool} {port : Port RxConf TxConf} {mempool : Pool}

theorem configuredBelow (bounded : Bounded driver) {declare nCores : UInt16}
    {now events : Log (Call RxConf TxConf Pool) Answer}
    (configured : Configured driver port mempool declare nCores now events) {i : UInt16} (below : i < nCores) :
    i < declare := by
  obtain ⟨before, counts, good⟩ := configured.each _ (memSetUpCalls.mpr (.inl ⟨i, below, .inl rfl⟩))
  by_contra beyond
  refine bounded.rx before port.id i _ _ _ _ ?_ good
  rw [counts]
  exact UInt16.not_lt.mp beyond

theorem configuredPaired (bounded : Bounded driver) {declare numCores : UInt16} (few : numCores ≤ 65534)
    {now events : Log (Call RxConf TxConf Pool) Answer}
    (configured : Configured driver port mempool declare (toEven numCores) now events) :
    Paired port.id numCores (declared port.id now) events := by
  have within : ∀ i ∈ indices (toEven numCores), i < declare :=
    fun i member => configuredBelow bounded configured (memIndices.mp member)
  have once : ∀ i < toEven numCores, (indices (toEven numCores)).count i = 1 ∧ i < declare := by
    intro i below
    have member := memIndices.mpr below
    exact ⟨List.count_eq_one_of_mem (nodupIndices _) member, within i member⟩
  constructor <;> rw [configured.counts]
  case receive =>
    rw [configured.receive]
    intro q below
    exact once q (UInt16.lt_of_lt_of_le below (toEvenAtLeast few))
  case transmit =>
    rw [configured.transmit]
    exact fun q below => once _ (siblingBelow few below)
  case within =>
    rw [configured.receive, configured.transmit]
    exact ⟨within, within⟩

theorem configureWithPairs (bounded : Bounded driver) {b : Bindings} {declare numCores : UInt16}
    (few : numCores ≤ 65534) {past now : Log (Call RxConf TxConf Pool) Answer}
    (ok : (configureWith b driver port mempool declare (toEven numCores)).run.run past = (.ok (), now)) :
    ∃ events, now = past ++ events ∧ Paired port.id numCores (declared port.id now) events := by
  obtain ⟨events, same, configured⟩ := configureOk ok
  exact ⟨events, same, configuredPaired bounded few configured⟩

theorem pairedWhenOk (bounded : Bounded driver) (b : Bindings) (port : Port RxConf TxConf) (mempool : Pool) :
    PairsQueues port.id (L3enginelib.configure b driver port mempool) ∧
      PairsQueues port.id (DpdkLoop.configure b driver port mempool) := by
  constructor
  · exact fun numCores few past now ok => configureWithPairs bounded few ok
  · exact fun numCores few past now ok => configureWithPairs bounded few ok

def sampleBindings : Bindings := ⟨1, 1518, 0xe, 0xa38c, 0x10410, 0x20820, 0x1040, 0x4000, 0x10000⟩
def samplePort : Port Unit Unit := ⟨0, ⟨0xffff, 0xffffff, (), ()⟩⟩

theorem pairedWhenOkAtQueueDriver :
    ((L3enginelib.configure sampleBindings queueDriver samplePort () 2).run.run []).1 = .ok () ∧
      ((DpdkLoop.configure sampleBindings queueDriver samplePort () 1).run.run []).1 = .ok () ∧
      PairsQueues 0 (L3enginelib.configure sampleBindings queueDriver samplePort ()) ∧
      PairsQueues 0 (DpdkLoop.configure sampleBindings queueDriver samplePort ()) :=
  ⟨by decide, by decide, pairedWhenOk (cooperativeBounded queueDriverCooperative) sampleBindings samplePort ()⟩

end Pairing

def declareAndSetUp (past now : Log (Call RxConf TxConf Pool) Answer) : List (Call RxConf TxConf Pool) :=
  ((now.drop past.length).map Prod.fst).filter (fun
    | .promiscuousEnable _ => false
    | _ => true)

structure Agree (b : Bindings) (driver : Driver RxConf TxConf Pool) (port : Port RxConf TxConf) (mempool : Pool)
    (past : Log (Call RxConf TxConf Pool) Answer) (numCores : UInt16) : Prop where
  l3enginelib : ((L3enginelib.configure b driver port mempool numCores).run.run past).1 = .ok ()
  dpdkLoop : ((DpdkLoop.configure b driver port mempool numCores).run.run past).1 = .ok ()
  same : declareAndSetUp past ((L3enginelib.configure b driver port mempool numCores).run.run past).2 =
    declareAndSetUp past ((DpdkLoop.configure b driver port mempool numCores).run.run past).2

section Cooperation
variable {b : Bindings} {driver : Driver RxConf TxConf Pool} {port : Port RxConf TxConf} {mempool : Pool}

theorem setUpSucceeds (cooperative : Cooperative driver) {declare nCores : UInt16} (enough : nCores ≤ declare)
    {past : Log (Call RxConf TxConf Pool) Answer} (counts : declared port.id past = (declare, declare))
    {c : Call RxConf TxConf Pool} (member : c ∈ setUpCalls driver port mempool nCores) :
    (driver.answer past c).code = 0 := by
  have within : ∀ i < nCores, i < declare := fun i below => UInt16.lt_of_lt_of_le below enough
  obtain ⟨i, below, rfl | rfl⟩ | rfl := memSetUpCalls.mp member
  · exact (cooperative.rx past port.id i _ _ _ _).mpr (by rw [counts]; exact within i below)
  · exact (cooperative.tx past port.id i _ _ _).mpr (by rw [counts]; exact within i below)
  · exact cooperative.promiscuous past port.id

theorem configureSucceeds (cooperative : Cooperative driver) {declare nCores : UInt16} (enough : nCores ≤ declare)
    (allowed : declare ≤ 1024) (past : Log (Call RxConf TxConf Pool) Answer) :
    ∃ now, (configureWith b driver port mempool declare nCores).run.run past = (.ok (), now) := by
  have first := cooperative.configures past port.id declare (ethConf b port.devInfo) allowed
  rw [configureCalls, issueAllCons, judgeOk.mpr first]
  refine issueAllSucceeds (fun past => declared port.id past = (declare, declare)) ?_ (declaredNow past first)
  intro past c member kept
  exact ⟨judgeOk.mpr (setUpSucceeds cooperative enough kept member),
    (declaredKept _ (setUpsDeclareNothing member port.id)).trans kept⟩

theorem roundedSucceeds (cooperative : Cooperative driver) (b : Bindings) (port : Port RxConf TxConf) (mempool : Pool)
    {numCores : UInt16} (allowed : numCores ≤ 1024) (past : Log (Call RxConf TxConf Pool) Answer) :
    ∃ now, (DpdkLoop.configure b driver port mempool numCores).run.run past = (.ok (), now) := by
  have bound : numCores.toNat ≤ 1024 := UInt16.le_iff_toNat_le.mp allowed
  have few : numCores ≤ 65534 := UInt16.le_trans allowed (by decide)
  refine configureSucceeds cooperative (UInt16.le_refl _) ?_ past
  have top : (1024 : UInt16).toNat = 1024 := rfl
  rw [UInt16.le_iff_toNat_le, toEvenNat few, top]
  omega

theorem roundedLateOnlyEven (cooperative : Cooperative driver) {numCores : UInt16}
    {past now : Log (Call RxConf TxConf Pool) Answer}
    (ok : (L3enginelib.configure b driver port mempool numCores).run.run past = (.ok (), now))
    (allowed : numCores ≤ 1024) : numCores % 2 = 0 := by
  by_contra odd
  have few : numCores ≤ 65534 := UInt16.le_trans allowed (by decide)
  obtain ⟨events, _, configured⟩ := configureOk ok
  have more : numCores < toEven numCores := by
    rw [UInt16.lt_iff_toNat_lt, toEvenNat few]
    have rest : numCores.toNat % 2 ≠ 0 := by
      intro even
      apply odd
      rw [← UInt16.toNat_inj, UInt16.toNat_mod]
      exact even
    omega
  exact UInt16.lt_irrefl _ (configuredBelow (cooperativeBounded cooperative) configured more)

theorem toEvenSame {numCores : UInt16} (even : numCores % 2 = 0) : toEven numCores = numCores := by
  rw [toEven, even]
  rfl

theorem agreeIffEven (cooperative : Cooperative driver) (b : Bindings) (port : Port RxConf TxConf) (mempool : Pool)
    (past : Log (Call RxConf TxConf Pool) Answer) (numCores : UInt16) (allowed : numCores ≤ 1024) :
    Agree b driver port mempool past numCores ↔ numCores % 2 = 0 := by
  constructor
  · intro agree
    exact roundedLateOnlyEven cooperative (Prod.ext agree.l3enginelib rfl) allowed
  · intro even
    have copies : L3enginelib.configure b driver port mempool numCores =
        DpdkLoop.configure b driver port mempool numCores := by
      rw [L3enginelib.configure, DpdkLoop.configure, toEvenSame even]
    obtain ⟨now, ok⟩ := roundedSucceeds cooperative b port mempool allowed past
    constructor <;> simp [copies, ok]

theorem agreeIffEvenAtTwo : Agree sampleBindings queueDriver samplePort () [] 2 ↔ (2 : UInt16) % 2 = 0 :=
  agreeIffEven queueDriverCooperative sampleBindings samplePort () [] 2 (by decide)

theorem oneCoreRefused :
    ((L3enginelib.configure sampleBindings queueDriver samplePort () 1).run.run []).1 = .error .invalid ∧
      ((DpdkLoop.configure sampleBindings queueDriver samplePort () 1).run.run []).1 = .ok () ∧
      ¬ Agree sampleBindings queueDriver samplePort () [] 1 := by
  have refused : ((L3enginelib.configure sampleBindings queueDriver samplePort () 1).run.run []).1 =
      .error .invalid := by decide
  refine ⟨refused, by decide, fun agree => ?_⟩
  have ok := agree.l3enginelib
  rw [refused] at ok
  cases ok

end Cooperation

end Vdp.PortConfigure
