import Vdp.IpAddr

/-! What the two ARP responders make of each other's answers. The answer of the mux is marked as
a request, so the shim answers it; its own answer is a reply and ends the exchange. -/
namespace Vdp.Shim
open FiveTuple (Ethernet2Header ArpFields Carries Asks LocalIPMac Ipv4Addr Mac arpOpRequest etherTypeArp renderStandard
  renderStandardCarries arpHardwareEthernet etherTypeIpv4 answerLink answerFields answerSlice handleArp handleArpAnswers
  handleArpSome field)

theorem responseReplies {pkt out : Mbuf} {mp : Option Mbuf} (sent : pktArpResponse pkt mp = some out) :
    ∃ link arp, arp.operation = arpOpReply ∧ Carries out.data link arp := by
  simp only [pktArpResponse] at sent
  split at sent <;> try contradiction
  split at sent <;> try contradiction
  split at sent <;> try contradiction
  cases sent
  rename_i b
  have written := headersRead b.bytes (pktEtherHdr b) (loadBytes 6 pkt (pktEtherHdr pkt + 6))
    (loadBytes 6 pkt (pktEtherHdr pkt)) (loadBytes 4 pkt (pktArpHdr pkt + 24)) (loadBytes 4 pkt (pktArpHdr pkt + 14))
  have carries := renderStandardCarries
    ⟨loadBytes 6 pkt (pktEtherHdr pkt + 6), loadBytes 6 pkt (pktEtherHdr pkt), etherTypeArp⟩
    ⟨arpHardwareEthernet, etherTypeIpv4, 6, 4, arpOpReply, loadBytes 6 pkt (pktEtherHdr pkt + 6),
      loadBytes 4 pkt (pktArpHdr pkt + 24), loadBytes 6 pkt (pktEtherHdr pkt), loadBytes 4 pkt (pktArpHdr pkt + 14)⟩
  rw [← written] at carries
  exact ⟨_, _, rfl, carries⟩

theorem otherOpcodeIgnored {pkt : Mbuf} (frame : 42 ≤ pkt.data.length)
    (other : FiveTuple.be16 pkt.data 20 ≠ arpOpRequest) :
    (∀ localIp, pktDetectArp pkt localIp = 0) ∧ ∀ mp, pktArpResponse pkt mp = none := by
  have noRequest : cpuToBe16 (load16 pkt (pktArpHdr pkt + 6)) ≠ arpOpRequest := by
    rw [opcodeLoaded frame]
    exact other
  constructor
  · intro localIp
    simp only [pktDetectArp, if_neg noRequest, ite_self]
  · intro mp
    simp only [pktArpResponse, if_pos noRequest, ite_self]

theorem answerAsks {t : FiveTuple.Tuple} {here : LocalIPMac} {out : Mbuf}
    (holds : out.Holds (answerSlice renderStandard t here)) : Asks here.mac here.ip t.srcIp out.data := by
  have carries : Carries out.data (answerLink here) (answerFields t here) := by
    rw [holds.data]
    exact renderStandardCarries _ _
  exact ⟨Nat.le_of_eq carries.length.symm, carries.source, carries.etherType, carries.hardwareType, carries.protocolType,
    carries.lengths, carries.operation, carries.senderHw, carries.senderProto, carries.targetProto⟩

theorem handleArpHolds {t : FiveTuple.Tuple} {here : LocalIPMac} {alloc : Option Mbuf} {out : Mbuf}
    (fresh : ∀ b, alloc = some b → b.Wf ∧ b.dataLen = 0) (sent : handleArp renderStandard t here alloc = some out) :
    out.Holds (answerSlice renderStandard t here) := by
  cases alloc with
  | none => simp [handleArp, Mbuf.fromBytes] at sent
  | some b =>
    obtain ⟨wf, empty⟩ := fresh b rfl
    obtain ⟨marked, room⟩ := handleArpSome wf sent
    have own : ¬ (here.mac ≠ t.dstMac ∨ here.ip ≠ t.dstIp) := by
      intro foreign
      rw [handleArp, if_pos foreign] at sent
      cases sent
    simp only [not_or, not_not] at own
    obtain ⟨answer, stored, holds⟩ := handleArpAnswers renderStandard ⟨wf, empty, room⟩ own.1.symm own.2.symm marked
    rw [sent] at stored
    cases stored
    exact holds

theorem exchangeEnds (t : FiveTuple.Tuple) (here : LocalIPMac) (alloc : Option Mbuf)
    (fresh : ∀ b, alloc = some b → b.Wf ∧ b.dataLen = 0) :
    (∀ pkt mp reply, pktArpResponse pkt mp = some reply →
      (∀ localIp, pktDetectArp reply localIp = 0) ∧ ∀ mp, pktArpResponse reply mp = none) ∧
    ∀ out, handleArp renderStandard t here alloc = some out →
      (∀ localIp, pktDetectArp out localIp = 1 ↔ localIp = numberOf t.srcIp) ∧
      ∀ b, ∃ reply, pktArpResponse out (some b) = some reply ∧ field 4 reply.data 28 = t.srcIp ∧
        field 4 reply.data 38 = here.ip := by
  constructor
  · intro pkt mp reply sent
    obtain ⟨link, arp, replies, carries⟩ := responseReplies sent
    apply otherOpcodeIgnored (Nat.le_of_eq carries.length.symm)
    rw [carries.operation, replies]
    decide
  · intro out sent
    have asks := answerAsks (handleArpHolds fresh sent)
    constructor
    · intro localIp
      rw [detectsTarget asks]
      split <;> simp_all [eq_comm]
    · intro b
      obtain ⟨reply, answered, carries⟩ := responseCarries asks.frame asks.etherType asks.operation b
      exact ⟨reply, answered, carries.senderProto.trans asks.targetProto, carries.targetProto.trans asks.senderProto⟩

def requestTuple : FiveTuple.Tuple :=
  ⟨FiveTuple.requester, #v[10, 10, 1, 2], FiveTuple.muxLocal.mac, FiveTuple.muxLocal.ip, 0, 0x0608⟩

theorem exchangeEndsAtRequest :
    ∃ out, handleArp renderStandard requestTuple FiveTuple.muxLocal (some FiveTuple.freshBuf) = some out ∧
      (∀ localIp, pktDetectArp out localIp = 1 ↔ localIp = numberOf #v[10, 10, 1, 2]) ∧
      ∀ b, ∃ reply, pktArpResponse out (some b) = some reply ∧ field 4 reply.data 28 = #v[10, 10, 1, 2] ∧
        field 4 reply.data 38 = FiveTuple.muxLocal.ip := by
  have fresh : FiveTuple.freshBuf.Wf ∧ FiveTuple.freshBuf.dataLen = 0 := ⟨⟨by decide, by decide⟩, rfl⟩
  obtain ⟨out, sent, _⟩ := @handleArpAnswers renderStandard requestTuple FiveTuple.muxLocal FiveTuple.freshBuf
    ⟨fresh.1, fresh.2, by decide⟩ rfl rfl (by decide)
  have ends := exchangeEnds requestTuple FiveTuple.muxLocal (some FiveTuple.freshBuf) (by
    rintro b found
    cases found
    exact fresh)
  exact ⟨out, sent, ends.2 out sent⟩

end Vdp.Shim
