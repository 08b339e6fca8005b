import Vdp.Arp

/-! The classifier of `dpdk_loop`, the filter of the mux written once more. Where the mux
reports a missing layer as an error, this one unwraps: an `unwrap` that finds nothing is
the error of the model here, and the program ends with it. -/
namespace Vdp.DpdkLoop
open FiveTuple (Mac Ipv4Addr LocalIPMac Slicer okOr bindOk okOrOk mapErrorOk be16 sliceEthernet arpRequest)

structure Tuple where
  srcMac : Mac
  srcIp : Ipv4Addr
  dstMac : Mac
  dstIp : Ipv4Addr
  ethertype : UInt16
  deriving DecidableEq, Repr

inductive Panic (ReadError : Type) where
  | slicedPkt (e : ReadError)
  | linkslice
  | ipslice
  | transportslice
  deriving DecidableEq, Repr

variable {ReadError : Type}

def parsePkt (fromEthernet : Slicer ReadError) (pkt : List UInt8) (localIp : Ipv4Addr) (localMac : Mac) :
    Except (Panic ReadError) (Option Tuple) := do
  let slicedPkt ← (fromEthernet pkt).mapError .slicedPkt
  let linkslice ← okOr .linkslice slicedPkt.link
  let ipslice ← okOr .ipslice slicedPkt.ip
  let transportslice ← okOr .transportslice slicedPkt.transport
  let link := match linkslice with
    | .ethernet2 l => l
  match ipslice with
  | .ipv6 => .ok none
  | .ipv4 srcIp dstIp =>
    match transportslice with
    | .udp => .ok none
    | .tcp _ =>
      if dstIp ≠ localIp then .ok none
      else if link.destination ≠ localMac then .ok none
      else .ok (some ⟨link.source, srcIp, link.destination, dstIp, link.etherType⟩)

def Layered (fromEthernet : Slicer ReadError) (pkt : List UInt8) : Prop :=
  ∃ link ip transport, fromEthernet pkt = .ok ⟨some link, some ip, some transport⟩

def common (t : FiveTuple.Tuple) : Tuple := ⟨t.srcMac, t.srcIp, t.dstMac, t.dstIp, t.ethertype⟩

structure Agrees (fromEthernet : Slicer ReadError) (pkt : List UInt8) (here : LocalIPMac) (ports : List UInt16) :
    Prop where
  returns : ∃ result, parsePkt fromEthernet pkt here.ip here.mac = .ok result
  some : ∀ t, parsePkt fromEthernet pkt here.ip here.mac = .ok (some t) ↔
    ∃ t', FiveTuple.parsePkt fromEthernet pkt here ports = .ok t' ∧ common t' = t
  none : parsePkt fromEthernet pkt here.ip here.mac = .ok none ↔
    ∃ e, FiveTuple.parsePkt fromEthernet pkt here ports = .error e

theorem returnsLayered {fromEthernet : Slicer ReadError} {pkt : List UInt8} {localIp : Ipv4Addr} {localMac : Mac}
    {result : Option Tuple} (returned : parsePkt fromEthernet pkt localIp localMac = .ok result) :
    Layered fromEthernet pkt := by
  unfold parsePkt at returned
  obtain ⟨⟨_, _, _⟩, sliced, rest⟩ := bindOk returned
  obtain ⟨link, hasLink, rest⟩ := bindOk rest
  obtain ⟨ip, hasIp, rest⟩ := bindOk rest
  obtain ⟨transport, hasTransport, _⟩ := bindOk rest
  cases okOrOk hasLink
  cases okOrOk hasIp
  cases okOrOk hasTransport
  exact ⟨link, ip, transport, mapErrorOk sliced⟩

theorem layeredSame {fromEthernet : Slicer ReadError} {pkt : List UInt8} (layered : Layered fromEthernet pkt)
    (here : LocalIPMac) (ports : List UInt16) :
    parsePkt fromEthernet pkt here.ip here.mac =
      .ok ((FiveTuple.parsePkt fromEthernet pkt here ports).toOption.map common) := by
  obtain ⟨⟨header⟩, ip, transport, sliced⟩ := layered
  simp only [parsePkt, FiveTuple.parsePkt, sliced, Except.mapError, okOr, bind, Except.bind]
  cases ip with
  | ipv6 => rfl
  | ipv4 source destination =>
    cases transport with
    | udp => rfl
    | tcp port =>
      by_cases ip : destination = here.ip
      · by_cases mac : header.destination = here.mac <;> simp [ip, mac, common, Except.toOption]
      · simp [ip, Except.toOption]

theorem agreesIffLayered (fromEthernet : Slicer ReadError) (pkt : List UInt8) (here : LocalIPMac)
    (ports : List UInt16) : Agrees fromEthernet pkt here ports ↔ Layered fromEthernet pkt := by
  constructor
  · intro agrees
    obtain ⟨result, returned⟩ := agrees.returns
    exact returnsLayered returned
  · intro layered
    have same := layeredSame layered here ports
    constructor
    case returns => exact ⟨_, same⟩
    case some =>
      intro t
      rw [same]
      cases FiveTuple.parsePkt fromEthernet pkt here ports <;> simp [Except.toOption]
    case none =>
      rw [same]
      cases FiveTuple.parsePkt fromEthernet pkt here ports <;> simp [Except.toOption]

theorem otherEtherTypePanics {pkt : List UInt8} (link : 14 ≤ pkt.length) (other : be16 pkt 12 ≠ 0x0800)
    (localIp : Ipv4Addr) (localMac : Mac) : parsePkt sliceEthernet pkt localIp localMac = .error .ipslice := by
  have long : ¬ pkt.length < 14 := by omega
  simp only [parsePkt, sliceEthernet, if_neg long, if_neg other]
  rfl

def loopLocal : LocalIPMac := ⟨#v[192, 168, 1, 2], #v[0x90, 0xe2, 0xba, 0x87, 0x6b, 0xe8]⟩

def padding : List UInt8 := List.replicate 1494 0

theorem arpRequestPanics :
    parsePkt sliceEthernet (arpRequest ++ padding) loopLocal.ip loopLocal.mac = .error .ipslice ∧
      FiveTuple.parsePkt sliceEthernet (arpRequest ++ padding) loopLocal [0] = .error .invalidIP ∧
      ¬ Agrees sliceEthernet (arpRequest ++ padding) loopLocal [0] := by
  have long : 14 ≤ (arpRequest ++ padding).length := by
    rw [List.length_append]
    exact Nat.le_add_right_of_le (by decide)
  have etherType : be16 (arpRequest ++ padding) 12 = 0x0806 := rfl
  have other : be16 (arpRequest ++ padding) 12 ≠ 0x0800 := by
    rw [etherType]
    decide
  have panics := otherEtherTypePanics long other loopLocal.ip loopLocal.mac
  refine ⟨panics, ?_, ?_⟩
  · simp only [FiveTuple.parsePkt, sliceEthernet, if_neg (Nat.not_lt.mpr long), if_neg other]
    rfl
  · intro agrees
    obtain ⟨result, returned⟩ := agrees.returns
    rw [panics] at returned
    cases returned

end Vdp.DpdkLoop
