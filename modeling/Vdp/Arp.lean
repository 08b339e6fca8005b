import Vdp.FiveTuple
import Vdp.MbufPool

/-! The ARP branch of the mux: `handle_arp` and the test of `main` in front of it. The host
is little-endian. `pnet`, outside the repository, writes the fields of the answer into a
buffer of 42 bytes in some way; `etherparse` slices Ethernet II frames by the standard. -/
namespace Vdp.FiveTuple

/- `u16::to_be` on a little-endian host. -/
def toBe (x : UInt16) : UInt16 := x <<< 8 ||| x >>> 8

def ethertype (t : Tuple) : UInt16 := toBe t.ethertype

def etherTypeArp : UInt16 := 0x0806
def etherTypeIpv4 : UInt16 := 0x0800
def arpHardwareEthernet : UInt16 := 1
def arpOpRequest : UInt16 := 1

def broadcast : Mac := Vector.replicate 6 0xff
def zeroMac : Mac := Vector.replicate 6 0

structure ArpFields where
  hardwareType : UInt16
  protocolType : UInt16
  hwAddrLen : UInt8
  protoAddrLen : UInt8
  operation : UInt16
  senderHwAddr : Mac
  senderProtoAddr : Ipv4Addr
  targetHwAddr : Mac
  targetProtoAddr : Ipv4Addr
  deriving DecidableEq, Repr

/- What the setters of `pnet` make of a zeroed buffer. -/
abbrev Render := Ethernet2Header → ArpFields → Vector UInt8 42

def answerLink (here : LocalIPMac) : Ethernet2Header := ⟨here.mac, broadcast, etherTypeArp⟩

def answerFields (t : Tuple) (here : LocalIPMac) : ArpFields :=
  ⟨arpHardwareEthernet, etherTypeIpv4, 6, 4, arpOpRequest, here.mac, here.ip, zeroMac, t.srcIp⟩

def handleArp (render : Render) (t : Tuple) (here : LocalIPMac) (alloc : Option Mbuf) : Option Mbuf :=
  if here.mac ≠ t.dstMac ∨ here.ip ≠ t.dstIp then none
  else if toBe t.ethertype = etherTypeArp then
    if here.mac = t.dstMac ∨ here.ip = t.dstIp then
      let bytes := (render (answerLink here) (answerFields t here)).toList
      match (Mbuf.fromBytes alloc bytes).val.1 with
      | .ok outBuf => some outBuf
      | .error _ => none
    else none
  else none

variable {ReadError : Type}

inductive Handled (ReadError : Type) where
  | dropped (e : FiveTupleErr ReadError)
  | passed (t : Tuple)
  | arp (t : Tuple) (answer : Option Mbuf)

def handlePkt (fromEthernet : Slicer ReadError) (render : Render) (here : LocalIPMac) (pkt : List UInt8)
    (alloc : Option Mbuf) : Handled ReadError :=
  match parsePkt fromEthernet pkt here [0] with
  | .error e => .dropped e
  | .ok tuple =>
    if ethertype tuple = etherTypeArp then .arp tuple (handleArp render tuple here alloc) else .passed tuple

def ipEtherTypes : List UInt16 := [0x0800, 0x86dd, 0x8100, 0x88a8, 0x9100]

structure SlicesEthernet (fromEthernet : Slicer ReadError) : Prop where
  link : ∀ pkt s, fromEthernet pkt = .ok s →
    s.link = some (.ethernet2 ⟨field 6 pkt 6, field 6 pkt 0, be16 pkt 12⟩)
  ip : ∀ pkt s slice, fromEthernet pkt = .ok s → s.ip = some slice → be16 pkt 12 ∈ ipEtherTypes

theorem parsePktTuple {fromEthernet : Slicer ReadError} {pkt : List UInt8} {here : LocalIPMac} {ports : List UInt16}
    {t : Tuple} (ok : parsePkt fromEthernet pkt here ports = .ok t) :
    ∃ s link slice, fromEthernet pkt = .ok s ∧ s.link = some (.ethernet2 link) ∧ s.ip = some slice ∧
      t.ethertype = link.etherType := by
  unfold parsePkt at ok
  obtain ⟨s, sliced, ok⟩ := bindOk ok
  obtain ⟨⟨link⟩, hasLink, ok⟩ := bindOk ok
  obtain ⟨slice, hasIp, ok⟩ := bindOk ok
  obtain ⟨transport, _, ok⟩ := bindOk ok
  refine ⟨s, link, slice, mapErrorOk sliced, okOrOk hasLink, okOrOk hasIp, ?_⟩
  cases slice <;> cases transport <;> simp only [bind, Except.bind] at ok <;> try contradiction
  split at ok <;> try contradiction
  split at ok <;> try contradiction
  cases ok
  rfl

/- A frame with an IP slice has one of five ethertypes, and none of them is `ETHERTYPE_ARP`
with its bytes swapped; an ARP frame has no such slice. -/
theorem arpBranchDead {fromEthernet : Slicer ReadError} (standard : SlicesEthernet fromEthernet) (render : Render)
    (here : LocalIPMac) (pkt : List UInt8) (alloc : Option Mbuf) (t : Tuple) (answer : Option Mbuf) :
    handlePkt fromEthernet render here pkt alloc ≠ .arp t answer := by
  intro taken
  unfold handlePkt at taken
  split at taken <;> try contradiction
  rename_i tuple parsed
  split at taken <;> try contradiction
  rename_i swapped
  obtain ⟨s, link, slice, sliced, found, ip, same⟩ := parsePktTuple parsed
  have member := standard.ip pkt s slice sliced ip
  rw [standard.link pkt s sliced] at found
  cases found
  rw [ethertype, same] at swapped
  have none : ipEtherTypes.all (fun x => toBe x ≠ etherTypeArp) = true := by decide
  have different := List.all_eq_true.mp none _ member
  exact of_decide_eq_true different swapped

structure ArpRequestFor (here : LocalIPMac) (pkt : List UInt8) : Prop where
  frame : 42 ≤ pkt.length
  etherType : be16 pkt 12 = etherTypeArp
  hardwareType : be16 pkt 14 = arpHardwareEthernet
  protocolType : be16 pkt 16 = etherTypeIpv4
  lengths : byte pkt 18 = 6 ∧ byte pkt 19 = 4
  operation : be16 pkt 20 = arpOpRequest
  target : field 4 pkt 38 = here.ip
  destination : field 6 pkt 0 = here.mac ∨ field 6 pkt 0 = broadcast

structure Available (m : Mbuf) : Prop where
  wf : m.Wf
  empty : m.dataLen = 0
  room : 42 ≤ m.room

structure Answered (fromEthernet : Slicer ReadError) (render : Render) (here : LocalIPMac) (pkt : List UInt8) :
    Prop where
  reached : ArpRequestFor here pkt → ∀ alloc, ∃ t answer, handlePkt fromEthernet render here pkt alloc = .arp t answer
  answer : ArpRequestFor here pkt → ∀ m, Available m →
    ∃ t out, handlePkt fromEthernet render here pkt (some m) = .arp t (some out)
  others : be16 pkt 12 ≠ etherTypeArp → ∀ alloc t answer,
    handlePkt fromEthernet render here pkt alloc ≠ .arp t answer

def answerSlice (render : Render) (t : Tuple) (here : LocalIPMac) : Mbuf.ByteSlice :=
  ⟨(render (answerLink here) (answerFields t here)).toList, by rw [Vector.length_toList]; decide⟩

theorem answerLength (render : Render) (t : Tuple) (here : LocalIPMac) :
    (answerSlice render t here).bytes.length = 42 := Vector.length_toList

theorem handleArpAnswers (render : Render) {t : Tuple} {here : LocalIPMac} {m : Mbuf} (available : Available m)
    (mac : t.dstMac = here.mac) (ip : t.dstIp = here.ip) (swapped : toBe t.ethertype = etherTypeArp) :
    ∃ out, handleArp render t here (some m) = some out ∧ out.Holds (answerSlice render t here) := by
  have length := answerLength render t here
  obtain ⟨out, stored, holds⟩ := Mbuf.fromBytesFits available.wf available.empty
    (by rw [length]; decide) (by rw [length]; exact available.room)
  refine ⟨out, ?_, holds⟩
  rw [answerSlice] at stored
  simp [handleArp, mac, ip, swapped, stored]

theorem answeredIffNoRequest (fromEthernet : Slicer ReadError) (standard : SlicesEthernet fromEthernet)
    (render : Render) (here : LocalIPMac) (pkt : List UInt8) :
    Answered fromEthernet render here pkt ↔ ¬ ArpRequestFor here pkt := by
  constructor
  · intro answered request
    obtain ⟨t, answer, taken⟩ := answered.reached request none
    exact arpBranchDead standard render here pkt none t answer taken
  · intro other
    constructor
    case reached => intro request; contradiction
    case answer => intro request; contradiction
    case others =>
      intro _
      exact arpBranchDead standard render here pkt

theorem sliceIpv4Link {link : LinkSlice} {pkt : List UInt8} {s : SlicedPacket} (ok : sliceIpv4 link pkt = .ok s) :
    s.link = some link := by
  simp only [sliceIpv4] at ok
  split at ok <;> try contradiction
  split at ok <;> try contradiction
  split at ok <;> try contradiction
  revert ok
  cases sliceTransport (byte pkt 9) _ with
  | error e => intro ok; cases ok
  | ok found => intro ok; cases ok; rfl

theorem sliceEthernetStandard : SlicesEthernet sliceEthernet where
  link pkt s ok := by
    simp only [sliceEthernet] at ok
    split at ok <;> try contradiction
    split at ok
    · exact sliceIpv4Link ok
    · cases ok
      rfl
  ip pkt s slice ok found := by
    simp only [sliceEthernet] at ok
    split at ok <;> try contradiction
    split at ok
    · rename_i ipv4
      rw [ipv4]
      decide
    · cases ok
      cases found

def bigEndian (x : UInt16) : Vector UInt8 2 := #v[(x >>> 8).toUInt8, x.toUInt8]

def renderStandard : Render := fun link arp =>
  link.destination ++ link.source ++ bigEndian link.etherType ++ bigEndian arp.hardwareType ++
    bigEndian arp.protocolType ++ #v[arp.hwAddrLen] ++ #v[arp.protoAddrLen] ++ bigEndian arp.operation ++
    arp.senderHwAddr ++ arp.senderProtoAddr ++ arp.targetHwAddr ++ arp.targetProtoAddr

def arpRequest : List UInt8 :=
  [0xff, 0xff, 0xff, 0xff, 0xff, 0xff, 2, 0, 0, 0, 0, 1, 8, 6,
    0, 1, 8, 0, 6, 4, 0, 1, 2, 0, 0, 0, 0, 1, 10, 10, 1, 2, 0, 0, 0, 0, 0, 0, 10, 10, 1, 1]

theorem arpRequestForMux : ArpRequestFor muxLocal arpRequest where
  frame := by decide
  etherType := by decide
  hardwareType := by decide
  protocolType := by decide
  lengths := by decide
  operation := by decide
  target := by decide
  destination := by decide

theorem answeredIffNoRequestAtRequest :
    Answered sliceEthernet renderStandard muxLocal arpRequest ↔ ¬ ArpRequestFor muxLocal arpRequest :=
  answeredIffNoRequest sliceEthernet sliceEthernetStandard renderStandard muxLocal arpRequest

theorem arpRequestDropped :
    handlePkt sliceEthernet renderStandard muxLocal arpRequest (some ⟨2176, 128, 0, 0, fun _ => 0⟩) =
        .dropped .invalidIP ∧
      ¬ Answered sliceEthernet renderStandard muxLocal arpRequest := by
  have parsed : parsePkt sliceEthernet arpRequest muxLocal [0] = .error .invalidIP := by decide
  have dropped : ∀ alloc, handlePkt sliceEthernet renderStandard muxLocal arpRequest alloc = .dropped .invalidIP := by
    intro alloc
    simp only [handlePkt, parsed]
  refine ⟨dropped _, ?_⟩
  intro answered
  obtain ⟨t, answer, taken⟩ := answered.reached arpRequestForMux none
  rw [dropped] at taken
  cases taken

end Vdp.FiveTuple
