import Vdp.Lib.OnesSum
import Vdp.MbufData

/-! The header accessors of `shim.c`. A packet is never `NULL` here, so the tests for it do
not show; a pointer is an address relative to `buf_addr`. The host is little-endian. The
accessors look at two fields and at no length: neither the one of the data nor the one the
IP header has of itself. -/
namespace Vdp.Shim
open Lib.Bytes Lib.OnesSum

def sizeofEtherHdr : Nat := 14
def sizeofIpv4Hdr : Nat := 20

def pktmbufMtod (pkt : Mbuf) : Int := pkt.dataOff.toNat

def pktEtherHdr (pkt : Mbuf) : Int := pktmbufMtod pkt

def load16 (pkt : Mbuf) (p : Int) : UInt16 := word (pkt.bytes (p + 1)) (pkt.bytes p)

def pktIpv4Hdr (pkt : Mbuf) : Option Int :=
  let ethHdr := pktEtherHdr pkt
  let ipv4 := ethHdr + sizeofEtherHdr
  if load16 pkt (ethHdr + 12) = 8 then some ipv4 else none

def transportHdr (protocol : UInt8) (pkt : Mbuf) : Option Int :=
  match pktIpv4Hdr pkt with
  | none => none
  | some ipv4 =>
    if pkt.bytes (ipv4 + 9) ≠ protocol then none
    else some (pktmbufMtod pkt + sizeofEtherHdr + sizeofIpv4Hdr)

def ipProtocolIcmp : UInt8 := 1
def ipProtocolTcp : UInt8 := 6
def ipProtocolUdp : UInt8 := 17

def pktTcpHdr (pkt : Mbuf) : Option Int := transportHdr ipProtocolTcp pkt
def pktUdpHdr (pkt : Mbuf) : Option Int := transportHdr ipProtocolUdp pkt
def pktIcmpHdr (pkt : Mbuf) : Option Int := transportHdr ipProtocolIcmp pkt

inductive Transport where
  | tcp
  | udp
  | icmp
  deriving DecidableEq, Repr

def Transport.protocol : Transport → UInt8
  | .tcp => ipProtocolTcp
  | .udp => ipProtocolUdp
  | .icmp => ipProtocolIcmp

def Transport.fixed : Transport → Nat
  | .tcp => 20
  | .udp => 8
  | .icmp => 8

def Transport.hdr : Transport → Mbuf → Option Int
  | .tcp => pktTcpHdr
  | .udp => pktUdpHdr
  | .icmp => pktIcmpHdr

theorem hdrTransport (t : Transport) (m : Mbuf) : t.hdr m = transportHdr t.protocol m := by
  cases t <;> rfl

def frameByte (m : Mbuf) (i : Nat) : UInt8 := m.data.getD i 0

def version (m : Mbuf) : Nat := (frameByte m 14 >>> 4).toNat
def ihl (m : Mbuf) : Nat := (frameByte m 14 &&& 15).toNat

structure Frame (t : Transport) (m : Mbuf) : Prop where
  etherType : frameByte m 12 = 0x08 ∧ frameByte m 13 = 0x00
  version : version m = 4
  ihl : 5 ≤ ihl m
  header : 14 + 4 * Shim.ihl m ≤ m.data.length
  protocol : frameByte m 23 = t.protocol
  transport : 14 + 4 * Shim.ihl m + t.fixed ≤ m.data.length

structure Locates (t : Transport) (m : Mbuf) (ptr : Option Int) : Prop where
  found : ptr ≠ none ↔ Frame t m
  place : ∀ p, ptr = some p → p = m.dataOff.toNat + (14 + 4 * ihl m : Nat)

structure Marked (t : Transport) (m : Mbuf) : Prop where
  etherType : m.bytes (m.dataOff.toNat + 12) = 0x08 ∧ m.bytes (m.dataOff.toNat + 13) = 0x00
  protocol : m.bytes (m.dataOff.toNat + 23) = t.protocol

structure Plain (t : Transport) (m : Mbuf) : Prop where
  version : version m = 4
  ihl : ihl m = 5
  transport : 34 + t.fixed ≤ m.data.length

theorem load16Eight {m : Mbuf} {p : Int} : load16 m p = 8 ↔ m.bytes p = 0x08 ∧ m.bytes (p + 1) = 0x00 := by
  have bound := (m.bytes p).toNat_lt
  have value := wordNat (m.bytes (p + 1)) (m.bytes p)
  rw [load16, ← UInt16.toNat_inj, value, ← UInt8.toNat_inj, ← UInt8.toNat_inj]
  simp only [UInt16.reduceToNat, UInt8.reduceToNat]
  omega

theorem ipv4HdrValue (m : Mbuf) :
    pktIpv4Hdr m =
      if m.bytes (m.dataOff.toNat + 12) = 0x08 ∧ m.bytes (m.dataOff.toNat + 13) = 0x00 then
        some ((m.dataOff.toNat : Int) + 14)
      else none := by
  have next : (m.dataOff.toNat : Int) + 12 + 1 = m.dataOff.toNat + 13 := by omega
  simp only [pktIpv4Hdr, pktEtherHdr, pktmbufMtod, sizeofEtherHdr, load16Eight, next]
  rfl

theorem hdrMarked {t : Transport} {m : Mbuf} (marked : Marked t m) :
    t.hdr m = some ((m.dataOff.toNat : Int) + 34) := by
  have field : (m.dataOff.toNat : Int) + 14 + 9 = m.dataOff.toNat + 23 := by omega
  have matching : ¬ m.bytes (m.dataOff.toNat + 23) ≠ t.protocol := not_not.mpr marked.protocol
  simp only [hdrTransport, transportHdr, ipv4HdrValue, if_pos marked.etherType, field, if_neg matching, pktmbufMtod,
    sizeofEtherHdr, sizeofIpv4Hdr]
  congr 1

theorem hdrUnmarked {t : Transport} {m : Mbuf} (unmarked : ¬ Marked t m) : t.hdr m = none := by
  have field : (m.dataOff.toNat : Int) + 14 + 9 = m.dataOff.toNat + 23 := by omega
  by_cases ipv4 : m.bytes (m.dataOff.toNat + 12) = 0x08 ∧ m.bytes (m.dataOff.toNat + 13) = 0x00
  · have other : m.bytes (m.dataOff.toNat + 23) ≠ t.protocol := fun protocol => unmarked ⟨ipv4, protocol⟩
    simp only [hdrTransport, transportHdr, ipv4HdrValue, if_pos ipv4, field, if_pos other]
  · simp only [hdrTransport, transportHdr, ipv4HdrValue, if_neg ipv4]

theorem frameByteInside {m : Mbuf} {i : Nat} (inside : i < m.data.length) :
    frameByte m i = m.bytes (m.dataOff.toNat + i) := by
  rw [Mbuf.dataLength] at inside
  rw [frameByte, List.getD_eq_getElem?_getD, Mbuf.data, readGet _ _ inside]
  rfl

theorem frameMarked {t : Transport} {m : Mbuf} (frame : Frame t m) : Marked t m := by
  have long := frame.header
  have words := frame.ihl
  obtain ⟨first, second⟩ := frame.etherType
  have protocol := frame.protocol
  rw [frameByteInside (by omega)] at first second protocol
  exact ⟨⟨first, second⟩, protocol⟩

theorem plainFrame {t : Transport} {m : Mbuf} (marked : Marked t m) (plain : Plain t m) : Frame t m := by
  have long := plain.transport
  have words := plain.ihl
  obtain ⟨first, second⟩ := marked.etherType
  have protocol := marked.protocol
  refine ⟨⟨?_, ?_⟩, plain.version, by omega, by omega, ?_, by omega⟩
  · rw [frameByteInside (by omega)]
    exact first
  · rw [frameByteInside (by omega)]
    exact second
  · rw [frameByteInside (by omega)]
    exact protocol

theorem locatesIffPlain (t : Transport) (m : Mbuf) : Locates t m (t.hdr m) ↔ (Marked t m → Plain t m) := by
  constructor
  · intro locates marked
    have ptr := hdrMarked marked
    have frame := locates.found.mp (by rw [ptr]; simp)
    have place := locates.place _ ptr
    have words : ihl m = 5 := by omega
    have long := frame.transport
    exact ⟨frame.version, words, by omega⟩
  · intro plain
    by_cases marked : Marked t m
    · have ptr := hdrMarked marked
      have words := (plain marked).ihl
      rw [ptr]
      constructor
      case found => simpa using plainFrame marked (plain marked)
      case place =>
        intro p same
        cases same
        rw [words]
        rfl
    · rw [hdrUnmarked marked]
      constructor
      case found => simpa using fun frame => marked (frameMarked frame)
      case place => intro p none; cases none

def optioned : Mbuf :=
  ⟨2176, 128, 62, 62, fun a => [8, 0, 0x46, 0, 0, 48, 0, 1, 0, 0, 64, 6].getD (a - 140).toNat 0⟩

theorem optionsTakenForHeader :
    Frame .tcp optioned ∧ pktTcpHdr optioned = some 162 ∧ ¬ Locates .tcp optioned (pktTcpHdr optioned) := by
  have ptr : pktTcpHdr optioned = some 162 := by decide
  refine ⟨⟨by decide, by decide, by decide, by decide, by decide, by decide⟩, ptr, ?_⟩
  intro locates
  exact absurd (locates.place 162 ptr) (by decide)

end Vdp.Shim
