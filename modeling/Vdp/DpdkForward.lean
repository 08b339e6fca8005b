import Mathlib.Logic.Function.Basic
import Vdp.ArpReply
import Vdp.DpdkLoop
import Vdp.Lib.Run
import Vdp.Port

/-! The forwarding loop of `dpdk_loop`: what it takes from its receive queue of port 0 is
sent on `port2`, and then goes through `parse_pkt` and `handle_arp`. A packet is the pointer
to its buffer. Packets arrive at port 0 between two iterations, on any of its queues. -/
namespace Vdp.DpdkLoop
open Lib.Run
open FiveTuple (Mac Ipv4Addr Slicer okOr Render Ethernet2Header ArpFields toBe broadcast zeroMac etherTypeArp
  etherTypeIpv4 arpHardwareEthernet arpOpRequest sliceEthernet)

variable {Ptr Pool ReadError : Type}

def queueSz : Nat := 32

def arpLink (localMac : Mac) : Ethernet2Header := ⟨localMac, broadcast, etherTypeArp⟩

def arpFields (localIp : Ipv4Addr) (localMac : Mac) (dstIp : Ipv4Addr) : ArpFields :=
  ⟨arpHardwareEthernet, etherTypeIpv4, 6, 4, arpOpRequest, localMac, localIp, zeroMac, dstIp⟩

def handleArp (render : Render) (localIp : Ipv4Addr) (localMac dstMac : Mac) (dstIp : Ipv4Addr)
    (alloc : Option (Ptr × Mbuf)) (ethertype : UInt16) : Option Ptr :=
  if localMac ≠ dstMac ∨ localIp ≠ dstIp then none
  else if toBe ethertype = etherTypeArp then
    if localMac = dstMac ∨ localIp = dstIp then
      let bytes := (render (arpLink localMac) (arpFields localIp localMac dstIp)).toList
      match (Mbuf.fromBytes (alloc.map Prod.snd) bytes).val.1 with
      | .ok _ => alloc.map Prod.fst
      | .error _ => none
    else none
  else none

/- The loop ends the program where an `unwrap` finds nothing, or where an empty list is to
be freed. -/
inductive LoopPanic (ReadError : Type) where
  | parsePkt (p : Panic ReadError)
  | noTuple
  | noAnswer
  | freeBulk
  deriving DecidableEq, Repr

structure State (Ptr : Type) where
  inPkts : List Ptr
  pending : UInt16 → List Ptr

def boot : State Ptr := ⟨[], fun _ => []⟩

structure Burst (Ptr : Type) where
  requested : UInt16
  received : List Ptr
  deriving DecidableEq, Repr

def rxBurst (pending : UInt16 → List Ptr) (queueId nbPkts : UInt16) : Burst Ptr × (UInt16 → List Ptr) :=
  (⟨nbPkts, (pending queueId).take nbPkts.toNat⟩,
    Function.update pending queueId ((pending queueId).drop nbPkts.toNat))

def receive (pending : UInt16 → List Ptr) (queueId : UInt16) (sz : Nat) : Burst Ptr × (UInt16 → List Ptr) :=
  rxBurst pending queueId (UInt16.ofNat sz)

def recvPkts (queueId : UInt16) (s : State Ptr) : Burst Ptr × State Ptr :=
  let (burst, left) := receive s.pending queueId s.inPkts.length
  (burst, ⟨s.inPkts ++ burst.received, left⟩)

structure Engine (Pool ReadError Ptr : Type) where
  queueId : UInt16
  pool : Ptr → Pool
  fromEthernet : Slicer ReadError
  render : Render

structure Outside (Ptr : Type) where
  packet : Ptr → List UInt8
  port2 : Port.Nic
  port1 : Ptr → Port.Nic
  alloc : Ptr → Option (Ptr × Mbuf)

structure Sent (Ptr Pool : Type) where
  offered : List Ptr
  num : Nat
  log : Port.Log Ptr Pool

/- The second result is the vector after `clear`. -/
def xmitPkts [DecidableEq Pool] (pool : Ptr → Pool) (nic : Port.Nic) (outPkts : List Ptr) :
    Except (LoopPanic ReadError) (Sent Ptr Pool × List Ptr) := do
  let (num, log) ← okOr .freeBulk (Port.send pool nic outPkts)
  .ok (⟨outPkts, num, log ++ outPkts.flatMap (Port.pktmbufFree pool)⟩, [])

section Loop
variable [DecidableEq Pool] (engine : Engine Pool ReadError Ptr) (out : Outside Ptr)

def answerPkt (m : Ptr) : Except (LoopPanic ReadError) (Port.Log Ptr Pool) := do
  let parsed ← (parsePkt engine.fromEthernet (out.packet m) loopLocal.ip loopLocal.mac).mapError .parsePkt
  let ft ← okOr .noTuple parsed
  let mbuf ← okOr .noAnswer
    (handleArp engine.render loopLocal.ip loopLocal.mac ft.srcMac ft.srcIp (out.alloc m) ft.ethertype)
  let (sent, _) ← xmitPkts engine.pool (out.port1 m) [mbuf]
  .ok sent.log

def arpPass : List Ptr → Except (LoopPanic ReadError) (List Ptr × Port.Log Ptr Pool)
  | [] => .ok ([], [])
  | m :: rest => do
    let log ← answerPkt engine out m
    let (examined, logs) ← arpPass rest
    .ok (m :: examined, log ++ logs)

structure Iteration (Ptr Pool : Type) where
  pending : List Ptr
  burst : Burst Ptr
  held : List Ptr
  offered : List Ptr
  examined : List Ptr
  log : Port.Log Ptr Pool

def iterate (s : State Ptr) : Except (LoopPanic ReadError) (Iteration Ptr Pool × State Ptr) := do
  let pending := s.pending engine.queueId
  let (burst, s) := recvPkts engine.queueId s
  if s.inPkts.length > 0 then
    let (sent, inPkts) ← xmitPkts engine.pool out.port2 s.inPkts
    let (examined, answers) ← arpPass engine out inPkts
    .ok (⟨pending, burst, s.inPkts, sent.offered, examined, sent.log ++ answers⟩, { s with inPkts })
  else .ok (⟨pending, burst, s.inPkts, [], [], []⟩, s)

end Loop

inductive Action (Ptr : Type) where
  | arrive (queueId : UInt16) (pkts : List Ptr)
  | iterate (out : Outside Ptr)

inductive Event (Ptr Pool : Type) where
  | arrived (queueId : UInt16) (pkts : List Ptr)
  | iterated (i : Iteration Ptr Pool)

def arrive (s : State Ptr) (queueId : UInt16) (pkts : List Ptr) : State Ptr :=
  { s with pending := Function.update s.pending queueId (s.pending queueId ++ pkts) }

def step [DecidableEq Pool] (engine : Engine Pool ReadError Ptr) (s : State Ptr) :
    Action Ptr → Option (Event Ptr Pool × State Ptr)
  | .arrive queueId pkts => some (.arrived queueId pkts, arrive s queueId pkts)
  | .iterate out => (iterate engine out s).toOption.map (fun r => (.iterated r.1, r.2))

/- What an iteration does, from any state. It asks for as many packets as it holds already,
and the vector it goes through at the end is the one it has just cleared. -/
structure Iterated (engine : Engine Pool ReadError Ptr) (s : State Ptr) (i : Iteration Ptr Pool) (t : State Ptr) :
    Prop where
  pending : i.pending = s.pending engine.queueId
  burst : (i.burst, t.pending) = receive s.pending engine.queueId s.inPkts.length
  held : i.held = s.inPkts ++ i.burst.received
  offered : i.offered = i.held
  examined : i.examined = []
  cleared : t.inPkts = []

variable (ReadError) in
theorem xmitPktsTotal [DecidableEq Pool] (pool : Ptr → Pool) (nic : Port.Nic) (outPkts : List Ptr) :
    ∃ sent : Sent Ptr Pool, (xmitPkts pool nic outPkts : Except (LoopPanic ReadError) _) = .ok (sent, []) ∧
      sent.offered = outPkts := by
  obtain ⟨freed, same, _⟩ := Port.sendLog pool nic outPkts
  exact ⟨_, by rw [xmitPkts, same]; rfl, rfl⟩

theorem iterateTotal [DecidableEq Pool] (engine : Engine Pool ReadError Ptr) (out : Outside Ptr) (s : State Ptr) :
    ∃ i t, iterate engine out s = .ok (i, t) ∧ Iterated engine s i t := by
  obtain ⟨burst, left, asked⟩ : ∃ burst left, receive s.pending engine.queueId s.inPkts.length = (burst, left) :=
    ⟨_, _, rfl⟩
  have got : recvPkts engine.queueId s = (burst, ⟨s.inPkts ++ burst.received, left⟩) := by rw [recvPkts, asked]
  unfold iterate
  rw [got]
  by_cases some : (s.inPkts ++ burst.received).length > 0
  · obtain ⟨sent, same, offered⟩ :=
      xmitPktsTotal ReadError engine.pool out.port2 (s.inPkts ++ burst.received)
    refine ⟨_, _, by simp only [if_pos some, same]; rfl, ?_⟩
    exact ⟨rfl, asked.symm, rfl, offered, rfl, rfl⟩
  · have nothing : s.inPkts ++ burst.received = [] := List.eq_nil_of_length_eq_zero (Nat.eq_zero_of_not_pos some)
    refine ⟨_, _, if_neg some, ?_⟩
    exact ⟨rfl, asked.symm, rfl, nothing.symm, rfl, nothing⟩

structure Forwards (i : Iteration Ptr Pool) : Prop where
  requests : i.pending ≠ [] → 1 ≤ i.burst.requested ∧ i.burst.received ≠ []
  capacity : i.held.length ≤ queueSz
  offered : ∀ m ∈ i.burst.received, m ∈ i.offered
  examined : ∀ m ∈ i.burst.received, m ∈ i.examined

theorem receiveNothing (pending : UInt16 → List Ptr) (queueId : UInt16) :
    receive pending queueId 0 = (⟨0, []⟩, pending) := by
  simp [receive, rxBurst]

/- The vector starts empty, so nothing is ever asked for. -/
theorem emptyTakesNothing {engine : Engine Pool ReadError Ptr} {s t : State Ptr} {i : Iteration Ptr Pool}
    (did : Iterated engine s i t) (empty : s.inPkts = []) :
    i.burst = ⟨0, []⟩ ∧ i.held = [] ∧ t.pending = s.pending := by
  have asked := did.burst
  rw [empty, List.length_nil, receiveNothing, Prod.mk.injEq] at asked
  obtain ⟨nothing, same⟩ := asked
  refine ⟨nothing, ?_, same⟩
  rw [did.held, empty, nothing]
  rfl

theorem forwardsWhenNothingPending {engine : Engine Pool ReadError Ptr} {s t : State Ptr} {i : Iteration Ptr Pool}
    (did : Iterated engine s i t) (empty : s.inPkts = []) : Forwards i ↔ i.pending = [] := by
  obtain ⟨nothing, held, _⟩ := emptyTakesNothing did empty
  constructor
  · intro forwards
    by_contra waiting
    have some := (forwards.requests waiting).2
    rw [nothing] at some
    exact some rfl
  · intro none
    constructor
    case requests => exact fun waiting => absurd none waiting
    case capacity => simp [held]
    case offered => simp [nothing]
    case examined => simp [nothing]

def arrivals (queueId : UInt16) : Action Ptr → List Ptr
  | .arrive queue pkts => if queue = queueId then pkts else []
  | .iterate _ => []

structure Stuck (acts : List (Action Ptr)) (s : State Ptr) : Prop where
  empty : s.inPkts = []
  waiting : ∀ queueId, s.pending queueId = acts.flatMap (arrivals queueId)

theorem stuckBoot : Stuck [] (boot : State Ptr) := ⟨rfl, fun _ => rfl⟩

theorem stuckArrive {acts : List (Action Ptr)} {s : State Ptr} (stuck : Stuck acts s) (queueId : UInt16)
    (pkts : List Ptr) : Stuck (acts ++ [.arrive queueId pkts]) (arrive s queueId pkts) where
  empty := stuck.empty
  waiting queue := by
    by_cases same : queue = queueId
    · subst same
      simp [arrive, arrivals, stuck.waiting]
    · simp [arrive, arrivals, same, Ne.symm same, stuck.waiting]

theorem stuckIterate {engine : Engine Pool ReadError Ptr} {out : Outside Ptr} {acts : List (Action Ptr)}
    {s t : State Ptr} {i : Iteration Ptr Pool} (stuck : Stuck acts s) (did : Iterated engine s i t) :
    Stuck (acts ++ [.iterate out]) t := by
  obtain ⟨_, _, same⟩ := emptyTakesNothing did stuck.empty
  constructor
  case empty => exact did.cleared
  case waiting =>
    intro queueId
    simp [same, arrivals, stuck.waiting]

structure Idling (acts : List (Action Ptr)) (es : List (Event Ptr Pool)) (s : State Ptr) : Prop where
  stuck : Stuck acts s
  agree : ∀ i, Event.iterated i ∈ es → (Forwards i ↔ i.pending = [])

theorem idlingStep [DecidableEq Pool] (engine : Engine Pool ReadError Ptr) {acts : List (Action Ptr)}
    {es : List (Event Ptr Pool)} {s : State Ptr} (inv : Idling acts es s) (a : Action Ptr) :
    ∃ e t, step engine s a = some (e, t) ∧ Idling (acts ++ [a]) (es ++ [e]) t := by
  cases a with
  | arrive queueId pkts =>
    refine ⟨_, _, rfl, stuckArrive inv.stuck queueId pkts, ?_⟩
    intro i member
    exact inv.agree i (by simpa using member)
  | iterate out =>
    obtain ⟨i, t, ran, did⟩ := iterateTotal engine out s
    refine ⟨.iterated i, t, by rw [step, ran]; rfl, stuckIterate inv.stuck did, ?_⟩
    intro j member
    cases List.mem_append.mp member with
    | inl before => exact inv.agree j before
    | inr last =>
      cases List.mem_singleton.mp last
      exact forwardsWhenNothingPending did inv.stuck.empty

theorem forwardsIffNothingPending [DecidableEq Pool] (engine : Engine Pool ReadError Ptr) (acts : List (Action Ptr)) :
    ∃ es u, run (step engine) boot acts = some (es, u) ∧ Stuck acts u ∧
      ((∀ i, Event.iterated i ∈ es → Forwards i) ↔ ∀ i, Event.iterated i ∈ es → i.pending = []) := by
  obtain ⟨es, u, ran, inv⟩ := runTotal Idling (fun a inv => idlingStep engine inv a) ⟨stuckBoot, by simp⟩ acts
  refine ⟨es, u, ran, inv.stuck, ?_⟩
  exact forall_congr' (fun i => forall_congr' (inv.agree i))

def sampleEngine : Engine Nat FiveTuple.SliceError Nat := ⟨0, fun _ => 0, sliceEthernet, FiveTuple.renderStandard⟩

def sampleOutside : Outside Nat :=
  ⟨fun _ => FiveTuple.arpRequest ++ padding, fun n => Fin.last n.toNat, fun _ n => Fin.last n.toNat, fun _ => none⟩

theorem pendingPacketNotTaken :
    ∃ es u i, run (step sampleEngine) boot [.arrive 0 [7], .iterate sampleOutside] = some (es, u) ∧
      Event.iterated i ∈ es ∧ i.pending = [7] ∧ i.burst.requested = 0 ∧ ¬ Forwards i ∧ u.pending 0 = [7] := by
  refine ⟨_, _, _, rfl, List.mem_cons_of_mem _ List.mem_cons_self, rfl, rfl, ?_, rfl⟩
  intro forwards
  exact absurd (forwards.requests (by decide)).1 (by decide)

end Vdp.DpdkLoop
