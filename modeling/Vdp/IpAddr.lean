import Vdp.ArpReply
import Vdp.ParseIp

/-! One number for an IPv4 address on both sides: `ipaddr_to_u32` of the mux, the text of
`shim.c`, and `_pkt_detect_arp`, which compares such a number with the target of a request.
The host is little-endian; a packet is never `NULL` here. -/
namespace Vdp.Shim
open Lib.Scan
open FiveTuple (Mac Ipv4Addr Asks etherTypeArp arpOpRequest)

def load32 (pkt : Mbuf) (p : Int) : UInt32 :=
  let b : Ipv4Addr := loadBytes 4 pkt p
  address b[3] b[2] b[1] b[0]

def beToCpu32 (x : UInt32) : UInt32 := rteIpv4 x (x >>> 8) (x >>> 16) (x >>> 24)

def pktDetectArp (pkt : Mbuf) (localIp : UInt32) : Int32 :=
  let etherHdr := pktEtherHdr pkt
  if cpuToBe16 (load16 pkt (etherHdr + 12)) = etherTypeArp then
    let arpHdr := pktArpHdr pkt
    if cpuToBe16 (load16 pkt (arpHdr + 6)) = arpOpRequest then
      if beToCpu32 (load32 pkt (arpHdr + 24)) = localIp then 1 else 0
    else 0
  else 0

theorem addressNat (a b c d : UInt8) :
    (address a b c d).toNat = 256 * (256 * (256 * a.toNat + b.toNat) + c.toNat) + d.toNat := by
  have boundA := a.toNat_lt
  have boundB := b.toNat_lt
  have boundC := c.toNat_lt
  have boundD := d.toNat_lt
  rw [address, UInt32.toNat_ofNat']
  omega

theorem addressInjective {a b c d a' b' c' d' : UInt8} (same : address a b c d = address a' b' c' d') :
    a = a' ∧ b = b' ∧ c = c' ∧ d = d' := by
  have value := congrArg UInt32.toNat same
  rw [addressNat, addressNat] at value
  have bounds := b.toNat_lt
  have bounds' := b'.toNat_lt
  have boundC := c.toNat_lt
  have boundC' := c'.toNat_lt
  have boundD := d.toNat_lt
  have boundD' := d'.toNat_lt
  simp only [← UInt8.toNat_inj]
  omega

theorem addressOctets (a b c d : UInt8) :
    address a b c d >>> 24 &&& 0xff = a.toUInt32 ∧ address a b c d >>> 16 &&& 0xff = b.toUInt32 ∧
      address a b c d >>> 8 &&& 0xff = c.toUInt32 ∧ address a b c d &&& 0xff = d.toUInt32 := by
  have boundA := a.toNat_lt
  have boundB := b.toNat_lt
  have boundC := c.toNat_lt
  have boundD := d.toNat_lt
  obtain ⟨first, second, third⟩ := octetNat (address a b c d)
  simp only [← UInt32.toNat_inj, first, second, third, maskNat, addressNat, UInt8.toNat_toUInt32]
  omega

theorem rteIpv4Masked (a b c d : UInt32) :
    rteIpv4 (a &&& 0xff) (b &&& 0xff) (c &&& 0xff) (d &&& 0xff) = rteIpv4 a b c d := by
  simp only [rteIpv4, UInt32.and_assoc, UInt32.and_self]

theorem beToCpu32Address (a b c d : UInt8) : beToCpu32 (address d c b a) = address a b c d := by
  obtain ⟨fourth, third, second, first⟩ := addressOctets d c b a
  rw [beToCpu32, ← rteIpv4Masked, first, second, third, fourth, rteIpv4Address]

def numberOf (a : Ipv4Addr) : UInt32 := address a[0] a[1] a[2] a[3]

def dottedText (a : Ipv4Addr) : List UInt8 :=
  decimal a[0].toNat ++ dot :: (decimal a[1].toNat ++ dot :: (decimal a[2].toNat ++ dot :: decimal a[3].toNat))

theorem quadTextNumber (a : Ipv4Addr) : quadText (numberOf a) = dottedText a := by
  obtain ⟨first, second, third, fourth⟩ := addressOctets a[0] a[1] a[2] a[3]
  rw [quadText, numberOf, first, second, third, fourth]
  simp [quadFormat, sprintf, dottedText]

theorem targetNumber {pkt : Mbuf} {m : Mac} {s a : Ipv4Addr} (request : Asks m s a pkt.data) :
    beToCpu32 (load32 pkt (pktArpHdr pkt + 24)) = numberOf a := by
  have loaded : loadBytes 4 pkt (pktArpHdr pkt + 24) = a := (targetLoaded request.frame).trans request.targetProto
  rw [load32, loaded, beToCpu32Address]
  rfl

theorem detectsTarget {pkt : Mbuf} {m : Mac} {s a : Ipv4Addr} (request : Asks m s a pkt.data) (localIp : UInt32) :
    pktDetectArp pkt localIp = if numberOf a = localIp then 1 else 0 := by
  have isArp := (etherTypeLoaded request.frame).trans request.etherType
  have isRequest := (opcodeLoaded request.frame).trans request.operation
  simp only [pktDetectArp, if_pos isArp, if_pos isRequest, targetNumber request]

end Vdp.Shim

namespace Vdp.FiveTuple
open Shim (address numberOf dottedText pktParseCharIp pktParseIp pktDetectArp rteIpv4)
open Lib.Scan (cString)

/- The second octet stands in the last place once more. -/
def ipaddrToU32 (ip : Ipv4Addr) : UInt32 :=
  (ip[0] &&& 0xff).toUInt32 <<< 24 ||| (ip[1] &&& 0xff).toUInt32 <<< 16 ||| (ip[2] &&& 0xff).toUInt32 <<< 8 |||
    (ip[1] &&& 0xff).toUInt32

theorem ipaddrToU32Address (ip : Ipv4Addr) : ipaddrToU32 ip = address ip[0] ip[1] ip[2] ip[1] := by
  have same : ipaddrToU32 ip = rteIpv4 ip[0].toUInt32 ip[1].toUInt32 ip[2].toUInt32 ip[1].toUInt32 := by
    simp only [ipaddrToU32, rteIpv4, UInt8.toUInt32_and]
    rfl
  rw [same, Shim.rteIpv4Address]

structure Encodes (a : Ipv4Addr) : Prop where
  printed : cString (pktParseCharIp (ipaddrToU32 a)) = dottedText a
  parsed : ∀ dest, pktParseIp (some (dottedText a)) (some dest) = (0, some (ipaddrToU32 a))
  detected : ∀ pkt m s, Asks m s a pkt.data → pktDetectArp pkt (ipaddrToU32 a) = 1

theorem numberPrinted (a : Ipv4Addr) : cString (pktParseCharIp (numberOf a)) = dottedText a := by
  rw [Shim.cStringPrinted, Shim.quadTextNumber]

theorem numberParsed (a : Ipv4Addr) (dest : UInt32) :
    pktParseIp (some (dottedText a)) (some dest) = (0, some (numberOf a)) := by
  rw [← numberPrinted, Shim.printedParses]

theorem encodesIffNumber (a : Ipv4Addr) : Encodes a ↔ ipaddrToU32 a = numberOf a := by
  constructor
  · intro encodes
    have parsed := encodes.parsed 0
    rw [numberParsed] at parsed
    exact (Option.some.inj (Prod.mk.inj parsed).2).symm
  · intro same
    constructor
    case printed => rw [same, numberPrinted]
    case parsed =>
      intro dest
      rw [same, numberParsed]
    case detected =>
      intro pkt m s request
      rw [Shim.detectsTarget request, same, if_pos rfl]

theorem sameNumberIff (a b : Ipv4Addr) : ipaddrToU32 a = ipaddrToU32 b ↔ a[0] = b[0] ∧ a[1] = b[1] ∧ a[2] = b[2] := by
  rw [ipaddrToU32Address, ipaddrToU32Address]
  constructor
  · intro same
    obtain ⟨first, second, third, _⟩ := Shim.addressInjective same
    exact ⟨first, second, third⟩
  · rintro ⟨first, second, third⟩
    rw [first, second, third]

theorem encodesIffLastRepeatsSecond (a b : Ipv4Addr) :
    (Encodes a ↔ a[3] = a[1]) ∧
      ((ipaddrToU32 a = ipaddrToU32 b → a = b) ↔
        ¬ (a[0] = b[0] ∧ a[1] = b[1] ∧ a[2] = b[2] ∧ a[3] ≠ b[3])) := by
  constructor
  · rw [encodesIffNumber, ipaddrToU32Address, numberOf]
    constructor
    · intro same
      exact (Shim.addressInjective same).2.2.2.symm
    · intro same
      rw [same]
  · rw [sameNumberIff]
    constructor
    · rintro apart ⟨first, second, third, fourth⟩
      exact fourth (by rw [apart ⟨first, second, third⟩])
    · rintro last ⟨first, second, third⟩
      have fourth : a[3] = b[3] := by
        by_contra different
        exact last ⟨first, second, third, different⟩
      apply Vector.ext
      intro i below
      match i, below with
      | 0, _ => exact first
      | 1, _ => exact second
      | 2, _ => exact third
      | 3, _ => exact fourth

theorem muxAddressMistaken :
    cString (pktParseCharIp (ipaddrToU32 muxLocal.ip)) = dottedText #v[10, 10, 1, 10] ∧
      ¬ Encodes muxLocal.ip ∧ ipaddrToU32 muxLocal.ip = ipaddrToU32 #v[10, 10, 1, 2] := by
  refine ⟨?_, ?_, by decide⟩
  · rw [ipaddrToU32Address]
    exact numberPrinted #v[10, 10, 1, 10]
  · rw [encodesIffNumber]
    decide

end Vdp.FiveTuple
