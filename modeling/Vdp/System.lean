import Vdp.Channel
import Vdp.Dispatch
import Vdp.Mux
import Vdp.Port

/-! The engine, the mux and the port that feeds them, over one pool and one channel. Each
call of the pool, the rings or the port is a step, and the steps of all parties interleave
freely. The port takes a buffer out of the pool for a packet that arrives. What a party
forgets is `engineLost` or `muxLost`: no program text reads these two. -/
namespace Vdp.System
open Lib
open Mbuf (RteMempool fromBytesIn)

/- The main loop of the engine: `recv_pkts` up to the bulk send and from there, `xmit_pkts`
up to `send` and from there. -/
inductive EngineAt where
  | receiving
  | handingOver
  | fetching
  | sending
  deriving DecidableEq, Repr

/- The main loop of the mux. `allocating` is `for k in 0..len`, `truncating` drops what is cut
off, and `processing` has so many rounds left. -/
inductive MuxAt (Ptr : Type) where
  | polling
  | allocating (len k : Nat) (pkts : List Ptr)
  | dequeuing (len : Nat) (pkts : List Ptr)
  | truncating (sz : Nat) (pkts cut : List Ptr)
  | processing (rounds : Nat)
  | handling (rounds : Nat) (pkt : Ptr)
  | panicked

structure State (P R Ptr : Type) where
  mempool : P
  waiting : List Ptr
  channel : Ring.Channel R
  engine : EngineAt
  inPkts : List Ptr
  outPkts : List Ptr
  sent : List Ptr
  mux : MuxAt Ptr
  inBuf : List Ptr
  mbufs : List Ptr
  clients : Dispatch.System Ptr
  engineLost : List Ptr
  muxLost : List Ptr

abbrev Rx := (most : Nat) → Fin (most + 1)

/- The step a party takes is the next one of its loop. `mbufs` are those that `xmit` and
`recv` of the mux own; a call with another one is no step. -/
inductive Action (Ptr : Type) where
  | arrive
  | engine (rx : Rx) (nic : Port.Nic)
  | mux (accepted : Bool)
  | fromBytes (slice : Mbuf.ByteSlice)
  | sendToEngine (errno : Int) (pkt : Ptr)
  | receiveFromEngine (errno : Int) (pkt : Ptr)
  | dropMbuf (pkt : Ptr)
  | client (a : Dispatch.Action Ptr)

inductive Event (Ptr : Type) where
  | arrived (pkt : Ptr)
  | missed
  | burst (sz : Nat)
  | popped (pkt : Ptr)
  | stored (pkt : Ptr)
  | noMem
  | internal
  deriving DecidableEq, Repr

section Code
variable {P R Ptr : Type} (pool : RteMempool P Ptr) (api : Ring.RteRing R Ptr)

def rxBurst (rx : Rx) (waiting : List Ptr) (nbPkts : UInt16) : List Ptr × List Ptr :=
  let len := (rx (min nbPkts.toNat waiting.length)).val
  (waiting.take len, waiting.drop len)

def receive (rx : Rx) (waiting : List Ptr) (sz : Nat) : List Ptr × List Ptr :=
  rxBurst rx waiting (UInt16.ofNat sz)

variable (capacity : Nat)

/- `into_ptr` forgets each packet of `in_pkts`; what the ring did not take is lost then. -/
def handOver (s : State P R Ptr) : State P R Ptr :=
  let out := Ring.enqueueBulk api s.channel.toPacketiser s.inPkts
  { s with
    engine := .fetching
    channel := { s.channel with toPacketiser := out.ring }
    inPkts := out.pkts
    engineLost := s.engineLost ++ s.inPkts.drop out.ret.toNat }

/- The ring stores into a vector of its own, so what it gives up is lost. -/
def fetch (s : State P R Ptr) : State P R Ptr :=
  let len := capacity - s.outPkts.length
  if len > 0 then
    let out := Ring.dequeueBurst api s.channel.toEngine [] len
    { s with
      engine := .sending
      channel := { s.channel with toEngine := out.ring }
      outPkts := s.outPkts ++ out.pkts
      engineLost := s.engineLost ++ (api.content s.channel.toEngine).take out.ret.toNat }
  else { s with engine := .sending }

def sentBy (log : Port.Log Ptr Unit) : List Ptr := (log.filter (fun e => e.2 = .nic)).map Prod.fst

def freedBy (log : Port.Log Ptr Unit) : List Ptr := (log.filter (fun e => e.2 = .pool ())).map Prod.fst

def xmit (nic : Port.Nic) (s : State P R Ptr) : Option (State P R Ptr) := do
  let (_, log) ← Port.send (fun _ => ()) nic s.outPkts
  let log := log ++ s.outPkts.flatMap (Port.pktmbufFree (fun _ => ()))
  some { s with
    engine := .receiving
    mempool := Mux.dropAll pool s.mempool (freedBy log)
    outPkts := []
    sent := s.sent ++ sentBy log }

def engineStep (rx : Rx) (nic : Port.Nic) (s : State P R Ptr) : Option (State P R Ptr) := match s.engine with
  | .receiving =>
    let len := capacity - s.inPkts.length
    if len = 0 then some { s with engine := .fetching }
    else
      let (pkts, waiting) := receive rx s.waiting len
      some { s with engine := .handingOver, waiting, inPkts := s.inPkts ++ pkts }
  | .handingOver => some (handOver api s)
  | .fetching => some (fetch api capacity s)
  | .sending => xmit pool nic s

/- The vector keeps its own buffers, and what the ring gives up is lost. -/
def dequeue (s : State P R Ptr) (len : Nat) (pkts : List Ptr) : State P R Ptr :=
  let out := Ring.dequeueBurst api s.channel.toPacketiser pkts len
  let sz := out.ret.toNat
  { s with
    mux := .truncating sz (out.pkts.take sz) (out.pkts.drop sz)
    channel := { s.channel with toPacketiser := out.ring }
    muxLost := s.muxLost ++ (api.content s.channel.toPacketiser).take sz }

def muxStep (accepted : Bool) (s : State P R Ptr) : Option (Event Ptr × State P R Ptr) := match s.mux with
  | .polling =>
    if s.inBuf.isEmpty then
      some (.internal, { s with mux := .allocating (Mux.burstSz - s.inBuf.length) 0 [] })
    else some (.internal, { s with mux := .processing s.inBuf.length })
  | .allocating len k pkts =>
    if k < len then match pool.pktmbufAlloc s.mempool with
      | some (buf, _, mempool) =>
        some (.internal, { s with mempool, mux := .allocating len (k + 1) (pkts ++ [buf]) })
      | none => some (.internal, { s with
          mempool := Mux.dropAll pool s.mempool (pkts.drop k)
          mux := .dequeuing len (pkts.take k) })
    else some (.internal, { s with mux := .dequeuing len pkts })
  | .dequeuing len pkts => some (.internal, dequeue api s len pkts)
  | .truncating sz pkts (m :: cut) =>
    some (.internal, { s with mempool := pool.pktmbufFree s.mempool m, mux := .truncating sz pkts cut })
  | .truncating sz pkts [] => match Fifo.pushAll Mux.burstSz s.inBuf pkts with
    | some inBuf => some (.burst sz, { s with inBuf, mux := .polling })
    | none => some (.internal, { s with mux := .panicked })
  | .processing 0 => some (.internal, { s with mux := .polling })
  | .processing (rounds + 1) => match s.inBuf with
    | pkt :: inBuf => some (.popped pkt, { s with inBuf, mux := .handling rounds pkt })
    | [] => some (.internal, { s with mux := .polling })
  | .handling rounds pkt =>
    if accepted then
      (Dispatch.dispatch s.clients pkt).map (fun clients =>
        (.internal, { s with clients, mux := .processing rounds }))
    else some (.internal, { s with mempool := pool.pktmbufFree s.mempool pkt, mux := .processing rounds })
  | .panicked => none

variable [DecidableEq Ptr]

/- An error leaves the packet with nobody. -/
def sendToEngine (errno : Int) (s : State P R Ptr) (pkt : Ptr) : State P R Ptr :=
  let (result, channel) := Ring.sendToEngine api errno s.channel pkt
  let mbufs := s.mbufs.erase pkt
  match result with
  | .ok () => { s with channel, mbufs }
  | .error _ => { s with channel, mbufs, muxLost := s.muxLost ++ [pkt] }

def receiveFromEngine (errno : Int) (s : State P R Ptr) (pkt : Ptr) : State P R Ptr :=
  let (result, _, channel) := Ring.receiveFromEngine api errno s.channel pkt
  match result with
  | .ok () => { s with channel, muxLost := s.muxLost ++ (api.content s.channel.toPacketiser).take 1 }
  | .error _ => { s with channel }

def clientStep (contents : Ptr → Memenpsf.Packet) (s : State P R Ptr) : Dispatch.Action Ptr → Option (State P R Ptr)
  | .dispatch _ => none
  | a => (Dispatch.step contents s.clients a).map (fun clients => { s with clients })

def step (contents : Ptr → Memenpsf.Packet) (s : State P R Ptr) :
    Action Ptr → Option (Event Ptr × State P R Ptr)
  | .arrive => match pool.pktmbufAlloc s.mempool with
    | some (pkt, _, mempool) => some (.arrived pkt, { s with mempool, waiting := s.waiting ++ [pkt] })
    | none => some (.missed, s)
  | .engine rx nic => (engineStep pool api capacity rx nic s).map (fun t => (.internal, t))
  | .mux accepted => muxStep pool api accepted s
  | .fromBytes slice => match fromBytesIn pool s.mempool slice with
    | (.ok (pkt, _), mempool) => some (.stored pkt, { s with mempool, mbufs := pkt :: s.mbufs })
    | (.error _, mempool) => some (.noMem, { s with mempool })
  | .sendToEngine errno pkt =>
    if pkt ∈ s.mbufs then some (.internal, sendToEngine api errno s pkt) else none
  | .receiveFromEngine errno pkt =>
    if pkt ∈ s.mbufs then some (.internal, receiveFromEngine api errno s pkt) else none
  | .dropMbuf pkt =>
    if pkt ∈ s.mbufs then
      some (.internal, { s with mempool := pool.pktmbufFree s.mempool pkt, mbufs := s.mbufs.erase pkt })
    else none
  | .client a => (clientStep contents s a).map (fun t => (.internal, t))

def boot (mempool : P) (channel : Ring.Channel R) : State P R Ptr where
  mempool := mempool
  waiting := []
  channel := channel
  engine := .receiving
  inPkts := []
  outPkts := []
  sent := []
  mux := .polling
  inBuf := []
  mbufs := []
  clients := Dispatch.boot
  engineLost := []
  muxLost := []

end Code

end Vdp.System
