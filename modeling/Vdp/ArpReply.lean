import Vdp.Arp
import Vdp.PktHdr

/-! The two ARP responders: `handle_arp` of the mux and `_pkt_arp_response` of `shim.c`. What
each of them sends is compared with the reply the requester waits for. The fields of `pnet`
stand where the standard has them; a `struct` of the shim is its bytes in memory. -/
namespace Vdp.FiveTuple
open Lib.Bytes

theorem byteSkip {front rest : List UInt8} {i : Nat} (beyond : front.length ≤ i) :
    byte (front ++ rest) i = byte rest (i - front.length) := by
  rw [byte, byte, List.getD_eq_getElem?_getD, List.getD_eq_getElem?_getD, List.getElem?_append_right beyond]

theorem fieldSkip {front rest : List UInt8} {i n : Nat} (beyond : front.length ≤ i) :
    field n (front ++ rest) i = field n rest (i - front.length) := by
  apply Vector.ext
  intro k below
  simp only [field, Vector.getElem_ofFn]
  rw [byteSkip (Nat.le_add_right_of_le beyond), Nat.sub_add_comm beyond]

theorem wordSkip {front rest : List UInt8} {i : Nat} (beyond : front.length ≤ i) :
    be16 (front ++ rest) i = be16 rest (i - front.length) := by
  rw [be16, be16, byteSkip beyond, byteSkip (Nat.le_add_right_of_le beyond), Nat.sub_add_comm beyond]

theorem byteHead (b : UInt8) (rest : List UInt8) : byte ([b] ++ rest) 0 = b := rfl

theorem fieldHead {n : Nat} (v : Vector UInt8 n) (rest : List UInt8) : field n (v.toList ++ rest) 0 = v := by
  apply Vector.ext
  intro i below
  have inside : i < v.toList.length := by rw [Vector.length_toList]; exact below
  rw [field, Vector.getElem_ofFn, Nat.zero_add, byte, List.getD_eq_getElem?_getD, List.getElem?_append_left inside,
    Vector.getElem?_toList, Vector.getElem?_eq_getElem below]
  rfl

theorem wordHead (x : UInt16) (rest : List UInt8) : be16 ((bigEndian x).toList ++ rest) 0 = x :=
  Lib.OnesSum.wordOfHalves x

theorem renderList (link : Ethernet2Header) (arp : ArpFields) : (renderStandard link arp).toList =
    link.destination.toList ++ (link.source.toList ++ ((bigEndian link.etherType).toList ++
      ((bigEndian arp.hardwareType).toList ++ ((bigEndian arp.protocolType).toList ++ ([arp.hwAddrLen] ++
      ([arp.protoAddrLen] ++ ((bigEndian arp.operation).toList ++ (arp.senderHwAddr.toList ++
      (arp.senderProtoAddr.toList ++ (arp.targetHwAddr.toList ++ (arp.targetProtoAddr.toList ++ []))))))))))) := by
  rw [renderStandard]
  repeat rw [Vector.toList_append]
  simp only [List.append_assoc, List.append_nil]
  rfl

structure Carries (bytes : List UInt8) (link : Ethernet2Header) (arp : ArpFields) : Prop where
  length : bytes.length = 42
  destination : field 6 bytes 0 = link.destination
  source : field 6 bytes 6 = link.source
  etherType : be16 bytes 12 = link.etherType
  hardwareType : be16 bytes 14 = arp.hardwareType
  protocolType : be16 bytes 16 = arp.protocolType
  lengths : byte bytes 18 = arp.hwAddrLen ∧ byte bytes 19 = arp.protoAddrLen
  operation : be16 bytes 20 = arp.operation
  senderHw : field 6 bytes 22 = arp.senderHwAddr
  senderProto : field 4 bytes 28 = arp.senderProtoAddr
  targetHw : field 6 bytes 32 = arp.targetHwAddr
  targetProto : field 4 bytes 38 = arp.targetProtoAddr

theorem renderStandardCarries (link : Ethernet2Header) (arp : ArpFields) :
    Carries (renderStandard link arp).toList link arp := by
  rw [renderList]
  constructor
  case length => simp
  case lengths =>
    simp (disch := simp) only [byteSkip, byteHead, Vector.length_toList, List.length_singleton, Nat.reduceSub, and_self]
  all_goals
    simp (disch := simp) only [fieldSkip, fieldHead, wordSkip, wordHead, Vector.length_toList, List.length_singleton,
      Nat.reduceSub]

end Vdp.FiveTuple

namespace Vdp.Shim
open Lib.Bytes Lib.OnesSum
open FiveTuple (Mac Ipv4Addr Ethernet2Header ArpFields Carries etherTypeArp etherTypeIpv4 arpHardwareEthernet
  arpOpRequest bigEndian renderStandard be16 field)

def cpuToBe16 (x : UInt16) : UInt16 := swap x

def arpOpReply : UInt16 := 2

def pktArpHdr (pkt : Mbuf) : Int := pktmbufMtod pkt + sizeofEtherHdr

def sizeofArpHdr : Nat := 28

def loadBytes (n : Nat) (pkt : Mbuf) (p : Int) : Vector UInt8 n := Vector.ofFn (fun k => pkt.bytes (p + k.val))

def store16 (bytes : Memory) (p : Int) (x : UInt16) : Memory := put bytes p [x.toUInt8, (x >>> 8).toUInt8]

def setArpHeaders (bytes : Memory) (ethHdr : Int) (frm tha : Mac) (sip tip : Ipv4Addr) : Memory :=
  let bytes := put bytes (ethHdr + 6) frm.toList
  let bytes := store16 bytes (ethHdr + 12) (cpuToBe16 etherTypeArp)
  let bytes := put bytes ethHdr tha.toList
  let outArpHdr := ethHdr + sizeofEtherHdr
  let bytes := store16 bytes outArpHdr (cpuToBe16 arpHardwareEthernet)
  let bytes := store16 bytes (outArpHdr + 2) (cpuToBe16 etherTypeIpv4)
  let bytes := put bytes (outArpHdr + 4) [6]
  let bytes := put bytes (outArpHdr + 5) [4]
  let bytes := store16 bytes (outArpHdr + 6) (cpuToBe16 arpOpReply)
  let bytes := put bytes (outArpHdr + 8) frm.toList
  let bytes := put bytes (outArpHdr + 14) sip.toList
  let bytes := put bytes (outArpHdr + 18) tha.toList
  put bytes (outArpHdr + 24) tip.toList

/- `tha` and `frm` are the Ethernet addresses of the request, the destination and the
source; they become destination and source of the answer. -/
def pktArpResponse (pkt : Mbuf) (mp : Option Mbuf) : Option Mbuf :=
  let etherHdr := pktEtherHdr pkt
  if cpuToBe16 (load16 pkt (etherHdr + 12)) ≠ etherTypeArp then none
  else
    let arpHdr := pktArpHdr pkt
    if cpuToBe16 (load16 pkt (arpHdr + 6)) ≠ arpOpRequest then none
    else
      let tha : Mac := loadBytes 6 pkt etherHdr
      let frm : Mac := loadBytes 6 pkt (etherHdr + 6)
      let tip : Ipv4Addr := loadBytes 4 pkt (arpHdr + 14)
      let sip : Ipv4Addr := loadBytes 4 pkt (arpHdr + 24)
      match mp with
      | none => none
      | some outPkt =>
        let pktSize := sizeofEtherHdr + sizeofArpHdr
        let outPkt := { outPkt with dataLen := UInt16.ofNat pktSize, pktLen := UInt32.ofNat pktSize }
        some { outPkt with bytes := setArpHeaders outPkt.bytes (pktEtherHdr outPkt) frm tha sip tip }

theorem loadField {pkt : Mbuf} {n i : Nat} (inside : i + n ≤ pkt.data.length) :
    loadBytes n pkt (pkt.dataOff.toNat + i) = field n pkt.data i := by
  apply Vector.ext
  intro k below
  have found : frameByte pkt (i + k) = pkt.bytes (pkt.dataOff.toNat + (i + k : Nat)) := frameByteInside (by omega)
  simp only [loadBytes, field, Vector.getElem_ofFn]
  rw [show (pkt.dataOff.toNat : Int) + i + k = pkt.dataOff.toNat + (i + k : Nat) by omega]
  exact found.symm

theorem loadWord {pkt : Mbuf} {i : Nat} (inside : i + 2 ≤ pkt.data.length) :
    cpuToBe16 (load16 pkt (pkt.dataOff.toNat + i)) = be16 pkt.data i := by
  have first : frameByte pkt i = pkt.bytes (pkt.dataOff.toNat + i) := frameByteInside (by omega)
  have second : frameByte pkt (i + 1) = pkt.bytes (pkt.dataOff.toNat + (i + 1 : Nat)) := frameByteInside (by omega)
  rw [load16, cpuToBe16, swapWord, show (pkt.dataOff.toNat : Int) + i + 1 = pkt.dataOff.toNat + (i + 1 : Nat) by omega,
    ← first, ← second]
  rfl

theorem etherTypeLoaded {pkt : Mbuf} (frame : 42 ≤ pkt.data.length) :
    cpuToBe16 (load16 pkt (pktEtherHdr pkt + 12)) = be16 pkt.data 12 := loadWord (i := 12) (by omega)

theorem opcodeLoaded {pkt : Mbuf} (frame : 42 ≤ pkt.data.length) :
    cpuToBe16 (load16 pkt (pktArpHdr pkt + 6)) = be16 pkt.data 20 := by
  rw [← loadWord (i := 20) (by omega), pktArpHdr, Int.add_assoc]
  rfl

theorem targetLoaded {pkt : Mbuf} (frame : 42 ≤ pkt.data.length) :
    loadBytes 4 pkt (pktArpHdr pkt + 24) = field 4 pkt.data 38 := by
  rw [← loadField (by omega), pktArpHdr, Int.add_assoc]
  rfl

section Stores
variable {mem : Memory} {dst start : Int} {n w : Nat}

theorem readVector (v : Vector UInt8 w) (same : start = dst) : read (put mem dst v.toList) start w = v.toList := by
  subst same
  have stored := readPut mem start v.toList
  rw [Vector.length_toList] at stored
  exact stored

theorem readByte (b : UInt8) (same : start = dst) : read (put mem dst [b]) start 1 = [b] := by
  subst same
  exact readPut mem start [b]

theorem readBesideVector (v : Vector UInt8 w) (apart : start + n ≤ dst ∨ dst + w ≤ start) :
    read (put mem dst v.toList) start n = read mem start n :=
  readPutBeside (by rw [Vector.length_toList]; exact apart)

theorem readBesideByte (b : UInt8) (apart : start + n ≤ dst ∨ dst + 1 ≤ start) :
    read (put mem dst [b]) start n = read mem start n := readPutBeside apart

end Stores

theorem store16BigEndian (bytes : Memory) (p : Int) (x : UInt16) :
    store16 bytes p (cpuToBe16 x) = put bytes p (bigEndian x).toList := by
  have swapped : cpuToBe16 x = word x.toUInt8 (x >>> 8).toUInt8 := by
    rw [← swapWord, wordOfHalves, cpuToBe16]
  rw [store16, swapped, wordLow, wordHigh]
  rfl

theorem headersRead (bytes : Memory) (ethHdr : Int) (frm tha : Mac) (sip tip : Ipv4Addr) :
    read (setArpHeaders bytes ethHdr frm tha sip tip) ethHdr 42 =
      (renderStandard ⟨frm, tha, etherTypeArp⟩
        ⟨arpHardwareEthernet, etherTypeIpv4, 6, 4, arpOpReply, frm, sip, tha, tip⟩).toList := by
  have fields : 42 = 6 + (6 + (2 + (2 + (2 + (1 + (1 + (2 + (6 + (4 + (6 + (4 + 0))))))))))) := rfl
  rw [FiveTuple.renderList, fields]
  simp only [readAppend, setArpHeaders, sizeofEtherHdr, store16BigEndian]
  -- each field is stored once, and every other store lies beside it
  simp (disch := omega) only [readVector, readByte, readBesideVector, readBesideByte]
  rfl

def responseLink (pkt : Mbuf) : Ethernet2Header := ⟨field 6 pkt.data 6, field 6 pkt.data 0, etherTypeArp⟩

def responseFields (pkt : Mbuf) : ArpFields :=
  ⟨arpHardwareEthernet, etherTypeIpv4, 6, 4, arpOpReply, field 6 pkt.data 6, field 4 pkt.data 38, field 6 pkt.data 0,
    field 4 pkt.data 28⟩

theorem responseCarries {pkt : Mbuf} (frame : 42 ≤ pkt.data.length) (arp : be16 pkt.data 12 = etherTypeArp)
    (asks : be16 pkt.data 20 = arpOpRequest) (b : Mbuf) :
    ∃ out, pktArpResponse pkt (some b) = some out ∧ Carries out.data (responseLink pkt) (responseFields pkt) := by
  have isArp : ¬ cpuToBe16 (load16 pkt (pktEtherHdr pkt + 12)) ≠ etherTypeArp := by
    rw [etherTypeLoaded frame, arp]
    exact not_not.mpr rfl
  have isRequest : ¬ cpuToBe16 (load16 pkt (pktArpHdr pkt + 6)) ≠ arpOpRequest := by
    rw [opcodeLoaded frame, asks]
    exact not_not.mpr rfl
  have tha : loadBytes 6 pkt (pktEtherHdr pkt) = field 6 pkt.data 0 := by
    rw [← loadField (by omega)]
    simp [pktEtherHdr, pktmbufMtod]
  have frm : loadBytes 6 pkt (pktEtherHdr pkt + 6) = field 6 pkt.data 6 :=
    loadField (i := 6) (by omega)
  have tip : loadBytes 4 pkt (pktArpHdr pkt + 14) = field 4 pkt.data 28 := by
    rw [← loadField (by omega), pktArpHdr, Int.add_assoc]
    rfl
  have sip : loadBytes 4 pkt (pktArpHdr pkt + 24) = field 4 pkt.data 38 := targetLoaded frame
  simp only [pktArpResponse, if_neg isArp, if_neg isRequest, tha, frm, tip, sip]
  refine ⟨_, rfl, ?_⟩
  have sent := headersRead b.bytes (pktEtherHdr b) (field 6 pkt.data 6) (field 6 pkt.data 0) (field 4 pkt.data 38)
    (field 4 pkt.data 28)
  have carries := FiveTuple.renderStandardCarries (responseLink pkt) (responseFields pkt)
  rw [responseLink, responseFields, ← sent] at carries
  exact carries

end Vdp.Shim

namespace Vdp.FiveTuple
open Shim (pktArpResponse arpOpReply)

structure Asks (m : Mac) (a l : Ipv4Addr) (pkt : List UInt8) : Prop where
  frame : 42 ≤ pkt.length
  source : field 6 pkt 6 = m
  etherType : be16 pkt 12 = etherTypeArp
  hardwareType : be16 pkt 14 = arpHardwareEthernet
  protocolType : be16 pkt 16 = etherTypeIpv4
  lengths : byte pkt 18 = 6 ∧ byte pkt 19 = 4
  operation : be16 pkt 20 = arpOpRequest
  senderHw : field 6 pkt 22 = m
  senderProto : field 4 pkt 28 = a
  targetProto : field 4 pkt 38 = l

structure Replies (h m : Mac) (l a : Ipv4Addr) (pkt : List UInt8) : Prop where
  frame : pkt.length = 42
  etherType : be16 pkt 12 = etherTypeArp
  hardwareType : be16 pkt 14 = arpHardwareEthernet
  protocolType : be16 pkt 16 = etherTypeIpv4
  lengths : byte pkt 18 = 6 ∧ byte pkt 19 = 4
  operation : be16 pkt 20 = arpOpReply
  destination : field 6 pkt 0 = m
  targetHw : field 6 pkt 32 = m
  targetProto : field 4 pkt 38 = a
  senderProto : field 4 pkt 28 = l
  source : field 6 pkt 6 = h ∧ field 6 pkt 6 ≠ m
  senderHw : field 6 pkt 22 = h ∧ field 6 pkt 22 ≠ m

theorem handleArpNoReply {h m : Mac} {l a : Ipv4Addr} {t : Tuple} {here : LocalIPMac} {out : Mbuf}
    (holds : out.Holds (answerSlice renderStandard t here)) : ¬ Replies h m l a out.data := by
  intro replies
  have carries : Carries out.data (answerLink here) (answerFields t here) := by
    rw [holds.data]
    exact renderStandardCarries _ _
  have wanted : arpOpRequest = arpOpReply := carries.operation.symm.trans replies.operation
  exact absurd wanted (by decide)

theorem responseNoReply (h : Mac) {m : Mac} {l a : Ipv4Addr} {pkt : Mbuf} (request : Asks m a l pkt.data) (b : Mbuf) :
    ∃ out, pktArpResponse pkt (some b) = some out ∧ ¬ Replies h m l a out.data := by
  obtain ⟨out, sent, carries⟩ := Shim.responseCarries request.frame request.etherType request.operation b
  refine ⟨out, sent, ?_⟩
  intro replies
  exact replies.source.2 (carries.source.trans request.source)

theorem handleArpSome {t : Tuple} {here : LocalIPMac} {m out : Mbuf} {render : Render} (wf : m.Wf)
    (sent : handleArp render t here (some m) = some out) :
    toBe t.ethertype = etherTypeArp ∧ 42 ≤ m.room := by
  unfold handleArp at sent
  split at sent <;> try contradiction
  split at sent <;> try contradiction
  rename_i arp
  refine ⟨arp, ?_⟩
  by_contra small
  have refused : (Mbuf.fromBytes (some m) (answerSlice render t here).bytes).val = _ :=
    Mbuf.fromBytesRefuses wf (by rw [answerLength]; omega)
  rw [answerSlice] at refused
  simp [refused] at sent

/- Neither responder ever sends the reply, so what is asked of it is met by silence only: of the
mux without a marked tuple or a large enough buffer, of the shim without a buffer. -/
theorem arpAnswersIffSilent (m h : Mac) (a l : Ipv4Addr) (port etherType : UInt16) (pkt : Mbuf)
    (request : Asks m a l pkt.data) (alloc : Option Mbuf) (fresh : ∀ b, alloc = some b → b.Wf ∧ b.dataLen = 0) :
    ((∀ out, handleArp renderStandard ⟨m, a, h, l, port, etherType⟩ ⟨l, h⟩ alloc = some out →
        Replies h m l a out.data) ↔ ¬ (toBe etherType = etherTypeArp ∧ ∃ b, alloc = some b ∧ 42 ≤ b.room)) ∧
      ((∀ out, pktArpResponse pkt alloc = some out → Replies h m l a out.data) ↔ alloc = none) := by
  constructor
  · constructor
    · rintro every ⟨marked, b, found, room⟩
      obtain ⟨wf, empty⟩ := fresh b found
      subst found
      obtain ⟨out, sent, holds⟩ := @handleArpAnswers renderStandard ⟨m, a, h, l, port, etherType⟩ ⟨l, h⟩ b
        ⟨wf, empty, room⟩ rfl rfl marked
      exact handleArpNoReply holds (every out sent)
    · intro silent out sent
      cases alloc with
      | none => simp [handleArp, Mbuf.fromBytes] at sent
      | some b =>
        obtain ⟨marked, room⟩ := handleArpSome (fresh b rfl).1 sent
        exact absurd ⟨marked, b, rfl, room⟩ silent
  · constructor
    · intro every
      cases alloc with
      | none => rfl
      | some b =>
        obtain ⟨out, sent, wrong⟩ := responseNoReply h request b
        exact absurd (every out sent) wrong
    · intro none out sent
      subst none
      simp [pktArpResponse] at sent

def requestPkt : Mbuf := ⟨2176, 128, 42, 42, fun a => byte arpRequest (a - 128).toNat⟩
def requester : Mac := #v[2, 0, 0, 0, 0, 1]
def freshBuf : Mbuf := ⟨2176, 128, 0, 0, fun _ => 0⟩

theorem requestAsks : Asks requester #v[10, 10, 1, 2] muxLocal.ip requestPkt.data := by
  have frame : requestPkt.data = arpRequest := by decide
  rw [frame]
  exact ⟨by decide, by decide, by decide, by decide, by decide, by decide, by decide, by decide, by decide, by decide⟩

theorem arpAnswersIffSilentAtRequest :
    ((∀ out, pktArpResponse requestPkt (some freshBuf) = some out →
        Replies muxLocal.mac requester muxLocal.ip #v[10, 10, 1, 2] out.data) ↔ (some freshBuf : Option Mbuf) = none) :=
  (arpAnswersIffSilent requester muxLocal.mac #v[10, 10, 1, 2] muxLocal.ip 0 0x0608 requestPkt requestAsks
    (some freshBuf) (by rintro b found; cases found; exact ⟨⟨by decide, by decide⟩, rfl⟩)).2

theorem neitherAnswerReplies :
    (∃ out, handleArp renderStandard ⟨requester, #v[10, 10, 1, 2], muxLocal.mac, muxLocal.ip, 0, 0x0608⟩ muxLocal
        (some freshBuf) = some out ∧ ¬ Replies muxLocal.mac requester muxLocal.ip #v[10, 10, 1, 2] out.data) ∧
      ∃ out, pktArpResponse requestPkt (some freshBuf) = some out ∧
        ¬ Replies muxLocal.mac requester muxLocal.ip #v[10, 10, 1, 2] out.data := by
  constructor
  · obtain ⟨out, sent, holds⟩ := @handleArpAnswers renderStandard
      ⟨requester, #v[10, 10, 1, 2], muxLocal.mac, muxLocal.ip, 0, 0x0608⟩ muxLocal freshBuf
      ⟨⟨by decide, by decide⟩, rfl, by decide⟩ rfl rfl (by decide)
    exact ⟨out, sent, handleArpNoReply holds⟩
  · exact responseNoReply muxLocal.mac requestAsks freshBuf

end Vdp.FiveTuple
