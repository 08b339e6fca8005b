import Vdp.Mbuf
import Vdp.MemEnpsf

/-! Classification of a received packet, and the bytes a client gets of it. The frame
parser is `etherparse`, outside the repository: any function from bytes to an error or to
optional slices, of which only the parts read here are kept. The mux hands it the first
`MTU` bytes from the data address, and `handle_client` copies the same bytes. -/
namespace Vdp.FiveTuple
open Memenpsf (mtu Packet)

abbrev Mac := Vector UInt8 6
abbrev Ipv4Addr := Vector UInt8 4

structure Ethernet2Header where
  source : Mac
  destination : Mac
  etherType : UInt16
  deriving DecidableEq, Repr

inductive LinkSlice where
  | ethernet2 (header : Ethernet2Header)
  deriving DecidableEq, Repr

inductive InternetSlice where
  | ipv4 (sourceAddr destinationAddr : Ipv4Addr)
  | ipv6
  deriving DecidableEq, Repr

inductive TransportSlice where
  | tcp (destinationPort : UInt16)
  | udp
  deriving DecidableEq, Repr

structure SlicedPacket where
  link : Option LinkSlice
  ip : Option InternetSlice
  transport : Option TransportSlice
  deriving DecidableEq, Repr

inductive FiveTupleErr (ReadError : Type) where
  | invalidLink
  | invalidIP
  | invalidTransport
  | noUDP
  | wrongMAC
  | wrongIP
  | wrongPort
  | noIPv6
  | readError (e : ReadError)
  deriving DecidableEq, Repr

structure LocalIPMac where
  ip : Ipv4Addr
  mac : Mac
  deriving DecidableEq, Repr

structure Tuple where
  srcMac : Mac
  srcIp : Ipv4Addr
  dstMac : Mac
  dstIp : Ipv4Addr
  dstPort : UInt16
  ethertype : UInt16
  deriving DecidableEq, Repr

abbrev Slicer (ReadError : Type) := List UInt8 → Except ReadError SlicedPacket

variable {ReadError : Type}

def okOr {ε α : Type} (e : ε) : Option α → Except ε α
  | some a => .ok a
  | none => .error e

theorem bindOk {ε α β : Type} {x : Except ε α} {next : α → Except ε β} {b : β} (ok : x >>= next = .ok b) :
    ∃ a, x = .ok a ∧ next a = .ok b := by
  cases x with
  | error e => cases ok
  | ok a => exact ⟨a, rfl, ok⟩

theorem okOrOk {ε α : Type} {e : ε} {o : Option α} {a : α} (ok : okOr e o = .ok a) : o = some a := by
  cases o with
  | none => cases ok
  | some b => cases ok; rfl

theorem mapErrorOk {ε ε' α : Type} {x : Except ε α} {f : ε → ε'} {a : α} (ok : x.mapError f = .ok a) :
    x = .ok a := by
  cases x with
  | error e => cases ok
  | ok b => cases ok; rfl

/- The check against the open ports is commented out in the source. -/
def parsePkt (fromEthernet : Slicer ReadError) (pkt : List UInt8) (here : LocalIPMac) (_ports : List UInt16) :
    Except (FiveTupleErr ReadError) Tuple := do
  let slicedPkt ← (fromEthernet pkt).mapError .readError
  let linkslice ← okOr .invalidLink slicedPkt.link
  let ipslice ← okOr .invalidIP slicedPkt.ip
  let transportslice ← okOr .invalidTransport slicedPkt.transport
  let link := match linkslice with
    | .ethernet2 l => l
  let (srcIp, dstIp) ← match ipslice with
    | .ipv4 source destination => .ok (source, destination)
    | .ipv6 => .error .noIPv6
  let dstPort ← match transportslice with
    | .tcp port => .ok port
    | .udp => .error .noUDP
  if dstIp ≠ here.ip then .error .wrongIP
  else if link.destination ≠ here.mac then .error .wrongMAC
  else .ok ⟨link.source, srcIp, link.destination, dstIp, dstPort, link.etherType⟩

theorem parsePktTcp {fromEthernet : Slicer ReadError} {pkt : List UInt8} {here : LocalIPMac}
    {link : Ethernet2Header} {source destination : Ipv4Addr} {port : UInt16}
    (sliced : fromEthernet pkt =
      .ok ⟨some (.ethernet2 link), some (.ipv4 source destination), some (.tcp port)⟩)
    (ip : destination = here.ip) (mac : link.destination = here.mac) (ports : List UInt16) :
    parsePkt fromEthernet pkt here ports =
      .ok ⟨link.source, source, link.destination, destination, port, link.etherType⟩ := by
  simp [parsePkt, sliced, Except.mapError, okOr, ip, mac, bind, Except.bind]

/- `MTU` bytes from `_pkt_raw_addr`, whatever `data_len` says. -/
def rawBytes (m : Mbuf) : Packet := Vector.ofFn (fun i => m.bytes (m.dataOff.toNat + i))

def classify (fromEthernet : Slicer ReadError) (here : LocalIPMac) (ports : List UInt16) (m : Mbuf) :
    Except (FiveTupleErr ReadError) Tuple :=
  parsePkt fromEthernet (rawBytes m).toList here ports

def forwarded (m : Mbuf) : Packet := rawBytes m

def data (m : Mbuf) : List UInt8 := List.ofFn (fun i : Fin m.dataLen.toNat => m.bytes (m.dataOff.toNat + i))

def Isolated (fromEthernet : Slicer ReadError) (len : UInt16) : Prop :=
  ∀ (here : LocalIPMac) (ports : List UInt16) (first second : Mbuf), first.Wf → second.Wf →
    first.dataLen = len → second.dataLen = len → data first = data second →
    classify fromEthernet here ports first = classify fromEthernet here ports second ∧
      ∀ tuple, classify fromEthernet here ports first = .ok tuple → forwarded first = forwarded second

theorem rawBytesEq {first second : Mbuf} (full : mtu ≤ first.dataLen.toNat)
    (lengths : first.dataLen = second.dataLen) (same : data first = data second) :
    rawBytes first = rawBytes second := by
  apply Vector.ext
  intro i inside
  simp only [rawBytes, Vector.getElem_ofFn]
  have entry := congrArg (fun l => l[i]?) same
  simp only [data, List.getElem?_ofFn] at entry
  rw [dif_pos (by omega), dif_pos (by rw [← lengths]; omega)] at entry
  exact Option.some.inj entry

def byte (pkt : List UInt8) (i : Nat) : UInt8 := pkt.getD i 0

def be16 (pkt : List UInt8) (i : Nat) : UInt16 := (byte pkt i).toUInt16 <<< 8 ||| (byte pkt (i + 1)).toUInt16

def field (n : Nat) (pkt : List UInt8) (i : Nat) : Vector UInt8 n := Vector.ofFn (fun k => byte pkt (i + k))

structure TcpFrame (pkt : List UInt8) : Prop where
  headers : 54 ≤ pkt.length
  etherType : be16 pkt 12 = 0x0800
  version : byte pkt 14 = 0x45
  total : 40 ≤ (be16 pkt 16).toNat ∧ 14 + (be16 pkt 16).toNat ≤ pkt.length
  whole : be16 pkt 20 = 0
  protocol : byte pkt 23 = 6
  dataOffset : byte pkt 46 = 0x50

/- What `SlicedPacket::from_ethernet` is documented to find in such a frame. -/
def SlicesTcpFrames (fromEthernet : Slicer ReadError) : Prop :=
  ∀ pkt, TcpFrame pkt → fromEthernet pkt =
    .ok ⟨some (.ethernet2 ⟨field 6 pkt 6, field 6 pkt 0, be16 pkt 12⟩),
      some (.ipv4 (field 4 pkt 26) (field 4 pkt 30)), some (.tcp (be16 pkt 36))⟩

def muxLocal : LocalIPMac := ⟨#v[10, 10, 1, 1], #v[0x90, 0xe2, 0xba, 0xb2, 0x98, 0x48]⟩

def headers : List UInt8 :=
  [0x90, 0xe2, 0xba, 0xb2, 0x98, 0x48, 2, 0, 0, 0, 0, 1, 8, 0,
    0x45, 0, 0, 40, 0, 1, 0, 0, 64, 6, 0, 0, 10, 10, 1, 2, 10, 10, 1, 1,
    4, 0, 0, 80, 0, 0, 0, 0, 0, 0, 0, 0, 0x50, 2, 0xff, 0xff, 0, 0, 0, 0]

def stale (len : UInt16) (last : UInt8) : Mbuf :=
  ⟨2176, 128, len, len.toUInt32, fun a => if a = 1663 then last else byte headers (a - 128).toNat⟩

theorem rawByte (len : UInt16) (last : UInt8) (i : Nat) (inside : i < mtu) :
    byte (rawBytes (stale len last)).toList i = (stale len last).bytes (128 + i : Nat) := by
  have entry : (rawBytes (stale len last)).toList[i]? = some ((stale len last).bytes (128 + i : Nat)) := by
    rw [Vector.getElem?_toList, Vector.getElem?_eq_getElem inside]
    simp [rawBytes, stale]
  rw [byte, List.getD_eq_getElem?_getD, entry]
  rfl

theorem rawWord {len : UInt16} {last : UInt8} (i : Nat) (high low : UInt8) (inside : i + 1 < mtu)
    (first : (stale len last).bytes (128 + i : Nat) = high)
    (second : (stale len last).bytes (128 + (i + 1) : Nat) = low) :
    be16 (rawBytes (stale len last)).toList i = high.toUInt16 <<< 8 ||| low.toUInt16 := by
  rw [be16, rawByte len last i (by omega), rawByte len last (i + 1) inside, first, second]

theorem rawField (n : Nat) (len : UInt16) (last : UInt8) (i : Nat) (inside : i + n ≤ mtu) :
    field n (rawBytes (stale len last)).toList i =
      Vector.ofFn (fun k => (stale len last).bytes (128 + (i + k) : Nat)) := by
  apply Vector.ext
  intro k below
  simp only [field, Vector.getElem_ofFn]
  exact rawByte len last (i + k) (by omega)

theorem staleFrame (len : UInt16) (last : UInt8) : TcpFrame (rawBytes (stale len last)).toList where
  headers := by
    rw [Vector.length_toList]
    decide
  etherType := (rawWord 12 8 0 (by decide) rfl rfl).trans (by decide)
  version := rawByte len last 14 (by decide)
  total := by
    have value : be16 (rawBytes (stale len last)).toList 16 = 40 :=
      (rawWord 16 0 40 (by decide) rfl rfl).trans (by decide)
    rw [value, Vector.length_toList]
    decide
  whole := (rawWord 20 0 0 (by decide) rfl rfl).trans (by decide)
  protocol := rawByte len last 23 (by decide)
  dataOffset := rawByte len last 46 (by decide)

theorem staleAccepted {fromEthernet : Slicer ReadError} (slices : SlicesTcpFrames fromEthernet)
    (len : UInt16) (last : UInt8) (ports : List UInt16) :
    ∃ tuple, classify fromEthernet muxLocal ports (stale len last) = .ok tuple := by
  have sliced := slices _ (staleFrame len last)
  have ip : field 4 (rawBytes (stale len last)).toList 30 = muxLocal.ip := rawField 4 len last 30 (by decide)
  have mac : field 6 (rawBytes (stale len last)).toList 0 = muxLocal.mac := rawField 6 len last 0 (by decide)
  exact ⟨_, parsePktTcp sliced ip mac ports⟩

theorem staleData {len : UInt16} (short : len.toNat < mtu) : data (stale len 0) = data (stale len 1) := by
  apply List.ext_getElem
  · simp [data, stale]
  · intro i below _
    simp only [data, List.length_ofFn] at below
    simp only [mtu] at short
    have inside : i < len.toNat := below
    have other : ((128 : UInt16).toNat + (i : Int)) ≠ 1663 := by
      simp
      omega
    simp only [data, List.getElem_ofFn, stale, if_neg other]

theorem staleForwarded (len : UInt16) : forwarded (stale len 0) ≠ forwarded (stale len 1) := by
  intro same
  have last := congrArg (fun v : Packet => byte v.toList 1535) same
  simp only [forwarded, rawByte _ _ 1535 (by decide)] at last
  exact absurd last (by simp [stale])

theorem shortNotIsolated {fromEthernet : Slicer ReadError} (slices : SlicesTcpFrames fromEthernet)
    {len : UInt16} (short : len.toNat < mtu) : ¬ Isolated fromEthernet len := by
  intro isolated
  have fits : (128 : Nat) + len.toNat ≤ 2176 := by
    simp only [mtu] at short
    omega
  have wf : ∀ last, (stale len last).Wf := fun last => ⟨fits, by simp [stale]⟩
  obtain ⟨tuple, accepted⟩ := staleAccepted slices len 0 [0]
  obtain ⟨_, copies⟩ := isolated muxLocal [0] (stale len 0) (stale len 1) (wf 0) (wf 1) rfl rfl (staleData short)
  exact staleForwarded len (copies tuple accepted)

theorem fullIsolated (fromEthernet : Slicer ReadError) {len : UInt16} (full : mtu ≤ len.toNat) :
    Isolated fromEthernet len := by
  intro here ports first second _ _ firstLen secondLen same
  have bytes : rawBytes first = rawBytes second :=
    rawBytesEq (by rw [firstLen]; exact full) (firstLen.trans secondLen.symm) same
  exact ⟨by rw [classify, classify, bytes], fun _ _ => bytes⟩

theorem isolatedIffFullLength (fromEthernet : Slicer ReadError) (slices : SlicesTcpFrames fromEthernet)
    (len : UInt16) : Isolated fromEthernet len ↔ mtu ≤ len.toNat := by
  constructor
  · intro isolated
    by_contra short
    exact shortNotIsolated slices (Nat.lt_of_not_le short) isolated
  · exact fullIsolated fromEthernet

inductive SliceError where
  | unexpectedEndOfSlice
  | ipv4HeaderBad
  | tcpDataOffsetTooSmall
  deriving DecidableEq, Repr

def sliceTransport (protocol : UInt8) (pkt : List UInt8) : Except SliceError (Option TransportSlice) :=
  if protocol = 6 then
    let words := (byte pkt 12 >>> 4).toNat
    if pkt.length < 20 then .error .unexpectedEndOfSlice
    else if words < 5 then .error .tcpDataOffsetTooSmall
    else if pkt.length < 4 * words then .error .unexpectedEndOfSlice
    else .ok (some (.tcp (be16 pkt 2)))
  else if protocol = 17 then
    if pkt.length < 8 then .error .unexpectedEndOfSlice else .ok (some .udp)
  else .ok none

def sliceIpv4 (link : LinkSlice) (pkt : List UInt8) : Except SliceError SlicedPacket :=
  let words := (byte pkt 0 &&& 15).toNat
  if pkt.length < 20 then .error .unexpectedEndOfSlice
  else if byte pkt 0 >>> 4 ≠ 4 ∨ words < 5 ∨ (be16 pkt 2).toNat < 4 * words then .error .ipv4HeaderBad
  else if pkt.length < 4 * words then .error .unexpectedEndOfSlice
  else (sliceTransport (byte pkt 9) (pkt.drop (4 * words))).map (fun transport =>
    ⟨some link, some (.ipv4 (field 4 pkt 12) (field 4 pkt 16)), transport⟩)

def sliceEthernet : Slicer SliceError := fun pkt =>
  let link := .ethernet2 ⟨field 6 pkt 6, field 6 pkt 0, be16 pkt 12⟩
  if pkt.length < 14 then .error .unexpectedEndOfSlice
  else if be16 pkt 12 = 0x0800 then sliceIpv4 link (pkt.drop 14)
  else .ok ⟨some link, none, none⟩

theorem byteDrop (pkt : List UInt8) (n i : Nat) : byte (pkt.drop n) i = byte pkt (n + i) := by
  simp [byte, List.getD_eq_getElem?_getD]

theorem wordDrop (pkt : List UInt8) (n i : Nat) : be16 (pkt.drop n) i = be16 pkt (n + i) := by
  simp only [be16, byteDrop, Nat.add_assoc]

theorem fieldDrop (width : Nat) (pkt : List UInt8) (n i : Nat) :
    field width (pkt.drop n) i = field width pkt (n + i) := by
  simp only [field, byteDrop, Nat.add_assoc]

theorem sliceTransportTcp {pkt : List UInt8} (header : 20 ≤ pkt.length) (offset : byte pkt 12 = 0x50) :
    sliceTransport 6 pkt = .ok (some (.tcp (be16 pkt 2))) := by
  have words : ((0x50 : UInt8) >>> 4).toNat = 5 := by decide
  simp only [sliceTransport, if_true, offset, words]
  rw [if_neg (by omega), if_neg (by omega), if_neg (by omega)]

theorem sliceIpv4Tcp {pkt : List UInt8} (link : LinkSlice) (headers : 40 ≤ pkt.length)
    (version : byte pkt 0 = 0x45) (total : 40 ≤ (be16 pkt 2).toNat) (protocol : byte pkt 9 = 6)
    (offset : byte pkt 32 = 0x50) :
    sliceIpv4 link pkt = .ok ⟨some link, some (.ipv4 (field 4 pkt 12) (field 4 pkt 16)),
      some (.tcp (be16 pkt 22))⟩ := by
  have words : ((0x45 : UInt8) &&& 15).toNat = 5 := by decide
  have four : (0x45 : UInt8) >>> 4 = 4 := by decide
  have rest : 20 ≤ (pkt.drop 20).length := by
    rw [List.length_drop]
    omega
  simp only [sliceIpv4, version, words, four, protocol]
  rw [if_neg (by omega), if_neg (by simp; omega), if_neg (by omega),
    sliceTransportTcp rest (by rw [byteDrop]; exact offset), wordDrop]
  rfl

theorem sliceEthernetTcp : SlicesTcpFrames sliceEthernet := by
  intro pkt frame
  have headers := frame.headers
  have length : (pkt.drop 14).length = pkt.length - 14 := List.length_drop
  simp only [sliceEthernet, if_pos frame.etherType]
  rw [if_neg (by omega), sliceIpv4Tcp]
  · simp only [wordDrop, fieldDrop]
  · omega
  · rw [byteDrop]
    exact frame.version
  · rw [wordDrop]
    exact frame.total.1
  · rw [byteDrop]
    exact frame.protocol
  · rw [byteDrop]
    exact frame.dataOffset

theorem isolatedAtFullLength : Isolated sliceEthernet 1536 ↔ mtu ≤ (1536 : UInt16).toNat :=
  isolatedIffFullLength sliceEthernet sliceEthernetTcp 1536

theorem staleByteReachesClient :
    data (stale 60 0) = data (stale 60 1) ∧
      (∃ tuple, classify sliceEthernet muxLocal [0] (stale 60 0) = .ok tuple) ∧
      forwarded (stale 60 0) ≠ forwarded (stale 60 1) ∧ ¬ Isolated sliceEthernet 60 :=
  ⟨staleData (by decide), staleAccepted sliceEthernetTcp 60 0 [0], staleForwarded 60,
    shortNotIsolated sliceEthernetTcp (by decide)⟩

end Vdp.FiveTuple
