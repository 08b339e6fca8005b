import Vdp.SystemCustody

/-! A party that nobody interrupts. The steps of the mux are then one call of
`recv_from_engine_burst`, those of the engine one `recv_pkts` and one `xmit_pkts`. -/
namespace Vdp.System
open Lib
open Lib.Run (run runThen)
open Mbuf (RteMempool)

variable {P R Ptr : Type} (pool : RteMempool P Ptr) (api : Ring.RteRing R Ptr) (capacity : Nat)

section Mux

def muxAlone (n : Nat) (s : State P R Ptr) : Option (List (Event Ptr) × State P R Ptr) :=
  run (fun s accepted => muxStep pool api accepted s) s (List.replicate n true)

variable {pool api}

theorem muxAloneThen {n k : Nat} {s t u : State P R Ptr} {es fs : List (Event Ptr)}
    (first : muxAlone pool api n s = some (es, t)) (second : muxAlone pool api k t = some (fs, u)) :
    muxAlone pool api (n + k) s = some (es ++ fs, u) := by
  rw [muxAlone] at first second ⊢
  rw [List.replicate_add]
  exact runThen first second

theorem muxAloneOne {s t : State P R Ptr} {e : Event Ptr} (ok : muxStep pool api true s = some (e, t)) :
    muxAlone pool api 1 s = some ([e], t) := by
  simp [muxAlone, run, ok]

variable (pool api)

theorem allocatingAlone (rounds : Nat) {s : State P R Ptr} {len k : Nat} {pkts : List Ptr}
    (stands : s.mux = .allocating len k pkts) (left : k + rounds = len) :
    ∃ n es, (∀ e ∈ es, e = .internal) ∧ muxAlone pool api n s = some (es, { s with
      mempool := (Mux.allocLoop pool rounds k s.mempool pkts).2
      mux := .dequeuing len (Mux.allocLoop pool rounds k s.mempool pkts).1 }) := by
  induction rounds generalizing s k pkts with
  | zero =>
    have last : ¬ k < len := by omega
    refine ⟨1, [.internal], by simp, muxAloneOne ?_⟩
    simp only [muxStep, stands, if_neg last, Mux.allocLoop]
  | succ rounds ih =>
    have more : k < len := by omega
    cases found : pool.pktmbufAlloc s.mempool with
    | none =>
      refine ⟨1, [.internal], by simp, muxAloneOne ?_⟩
      simp only [muxStep, stands, if_pos more, found, Mux.allocLoop]
    | some fresh =>
      obtain ⟨buf, m, mempool⟩ := fresh
      have one : muxStep pool api true s =
          some (.internal, { s with mempool, mux := .allocating len (k + 1) (pkts ++ [buf]) }) := by
        simp only [muxStep, stands, if_pos more, found]
      obtain ⟨n, es, quiet, rest⟩ := ih (s := { s with mempool, mux := .allocating len (k + 1) (pkts ++ [buf]) }) rfl
        (by omega)
      refine ⟨1 + n, [.internal] ++ es, by simpa using quiet, ?_⟩
      rw [muxAloneThen (muxAloneOne one) rest]
      simp only [Mux.allocLoop, found]

theorem truncatingAlone (cut : List Ptr) {s : State P R Ptr} {sz : Nat} {pkts : List Ptr}
    (stands : s.mux = .truncating sz pkts cut) :
    ∃ n es, (∀ e ∈ es, e = .internal) ∧ muxAlone pool api n s = some (es, { s with
      mempool := Mux.dropAll pool s.mempool cut
      mux := .truncating sz pkts [] }) := by
  induction cut generalizing s with
  | nil =>
    refine ⟨0, [], by simp, ?_⟩
    rw [← stands]
    rfl
  | cons m cut ih =>
    have one : muxStep pool api true s =
        some (.internal, { s with mempool := pool.pktmbufFree s.mempool m, mux := .truncating sz pkts cut }) := by
      simp only [muxStep, stands]
    obtain ⟨n, es, quiet, rest⟩ :=
      ih (s := { s with mempool := pool.pktmbufFree s.mempool m, mux := .truncating sz pkts cut }) rfl
    exact ⟨1 + n, [.internal] ++ es, by simpa using quiet, muxAloneThen (muxAloneOne one) rest⟩

theorem dequeuingAlone {s : State P R Ptr} {len sz : Nat} {pkts : List Ptr} (stands : s.mux = .dequeuing len pkts)
    (count : sz = (Mux.ringBurst api s.channel.toPacketiser len pkts).val)
    (room : s.inBuf.length + pkts.length ≤ Mux.burstSz) :
    ∃ n es, (∀ e ∈ es, e = .internal) ∧ muxAlone pool api n s = some (es ++ [.burst sz], { dequeue api s len pkts with
      mempool := Mux.dropAll pool s.mempool (pkts.drop sz)
      inBuf := s.inBuf ++ pkts.take sz
      mux := .polling }) := by
  have first : muxStep pool api true s = some (.internal, dequeue api s len pkts) := by
    simp only [muxStep, stands]
  have now : (dequeue api s len pkts).mux = .truncating sz (pkts.take sz) (pkts.drop sz) := by
    rw [count]
    rfl
  obtain ⟨n, es, quiet, cut⟩ := truncatingAlone pool api _ now
  have fits : s.inBuf.length + (pkts.take sz).length ≤ Mux.burstSz := by
    rw [List.length_take]
    omega
  refine ⟨1 + n + 1, [.internal] ++ es, by simpa using quiet, ?_⟩
  refine muxAloneThen (muxAloneThen (muxAloneOne first) cut) (muxAloneOne ?_)
  simp only [muxStep, dequeue, Fifo.pushAllFits fits]

variable {pool api}

/- The loop polls while `in_buf` is empty. What the ring gave up is lost, and no other part of the
system is touched. -/
theorem burstAlone {s : State P R Ptr} (polls : s.mux = .polling) (empty : s.inBuf = []) :
    ∃ n es sz inBuf mempool, (∀ e ∈ es, e = .internal) ∧
      Mux.recvFromEngineBurst pool (Mux.ringBurst api s.channel.toPacketiser Mux.burstSz) ⟨s.inBuf, s.mempool⟩ =
        some (sz, ⟨inBuf, mempool⟩) ∧
      muxAlone pool api n s = some (es ++ [.burst sz], { s with
        mempool
        inBuf
        channel := { s.channel with toPacketiser := (Ring.dequeueBurst api s.channel.toPacketiser
          (Mux.allocate pool ⟨s.inBuf, s.mempool⟩).1 Mux.burstSz).ring }
        muxLost := s.muxLost ++ (api.content s.channel.toPacketiser).take sz }) := by
  obtain ⟨pkts, mp, allocated⟩ : ∃ pkts mp, Mux.allocLoop pool Mux.burstSz 0 s.mempool [] = (pkts, mp) :=
    ⟨_, _, rfl⟩
  obtain ⟨_, count⟩ := Mux.allocLoopTaken pool Mux.burstSz (k := 0) (Mux.takenNone pool s.mempool) List.length_nil
  rw [allocated, Nat.zero_add] at count
  change pkts.length ≤ Mux.burstSz at count
  have same : Mux.allocate pool ⟨s.inBuf, s.mempool⟩ = (pkts, mp) := by
    rw [Mux.allocate, empty, List.length_nil, Nat.sub_zero, allocated]
  obtain ⟨sz, sized⟩ : ∃ sz, sz = (Mux.ringBurst api s.channel.toPacketiser Mux.burstSz pkts).val := ⟨_, rfl⟩
  have start : muxStep pool api true s = some (.internal, { s with mux := .allocating Mux.burstSz 0 [] }) := by
    simp only [muxStep, polls, empty, List.isEmpty_nil, if_true, List.length_nil, Nat.sub_zero]
  obtain ⟨n, es, quiet, filled⟩ := allocatingAlone pool api Mux.burstSz
    (s := { s with mux := .allocating Mux.burstSz 0 [] }) rfl (Nat.zero_add _)
  rw [allocated] at filled
  obtain ⟨k, fs, still, emptied⟩ := dequeuingAlone pool api
    (s := { s with mempool := mp, mux := .dequeuing Mux.burstSz pkts }) rfl sized (by rw [empty]; simpa using count)
  refine ⟨1 + n + k, [.internal] ++ es ++ fs, sz, s.inBuf ++ pkts.take sz, Mux.dropAll pool mp (pkts.drop sz),
    ?_, ?_, ?_⟩
  · intro e member
    simp only [List.mem_append, List.mem_singleton] at member
    rcases member with (one | before) | after
    · exact one
    · exact quiet e before
    · exact still e after
  · have fits : s.inBuf.length + (pkts.take sz).length ≤ Mux.burstSz := by
      rw [empty, List.length_nil, List.length_take]
      omega
    unfold Mux.recvFromEngineBurst
    rw [same]
    simp only [← sized, Fifo.pushAllFits fits, Option.map_some]
  · rw [List.append_assoc, same, polls]
    subst sized
    exact muxAloneThen (muxAloneThen (muxAloneOne start) filled) emptied

end Mux

section Engine

def recvPkts (rx : Rx) (s : State P R Ptr) : State P R Ptr :=
  let len := capacity - s.inPkts.length
  if len = 0 then { s with engine := .fetching }
  else
    let (pkts, waiting) := receive rx s.waiting len
    handOver api { s with engine := .handingOver, waiting, inPkts := s.inPkts ++ pkts }

def xmitPkts (nic : Port.Nic) (s : State P R Ptr) : Option (State P R Ptr) := xmit pool nic (fetch api capacity s)

def engineAlone (rx : Rx) (nic : Port.Nic) : Nat → State P R Ptr → Option (State P R Ptr)
  | 0, s => some s
  | n + 1, s => (engineStep pool api capacity rx nic s).bind (engineAlone rx nic n)

theorem iterationAlone (rx : Rx) (nic : Port.Nic) {s : State P R Ptr} (starts : s.engine = .receiving) :
    ∃ n, 3 ≤ n ∧ n ≤ 4 ∧ engineAlone pool api capacity rx nic n s =
      xmitPkts pool api capacity nic (recvPkts api capacity rx s) := by
  have sends : ∀ s : State P R Ptr, s.engine = .fetching →
      engineAlone pool api capacity rx nic 2 s = xmitPkts pool api capacity nic s := by
    intro s fetching
    have sending : (fetch api capacity s).engine = .sending := by
      simp only [fetch]
      split <;> rfl
    simp only [engineAlone, engineStep, fetching, sending, Option.bind_some, xmitPkts]
    cases xmit pool nic (fetch api capacity s) <;> rfl
  by_cases full : capacity - s.inPkts.length = 0
  · refine ⟨3, by decide, by decide, ?_⟩
    rw [engineAlone]
    simp only [engineStep, starts, recvPkts, if_pos full, Option.bind_some]
    exact sends _ rfl
  · refine ⟨4, by decide, by decide, ?_⟩
    rw [engineAlone]
    simp only [engineStep, starts, recvPkts, if_neg full, Option.bind_some]
    rw [engineAlone]
    simp only [engineStep, Option.bind_some]
    exact sends _ rfl

theorem xmitPktsAgrees (nic : Port.Nic) (s : State P R Ptr) :
    ∃ out ring, Port.xmitPkts (fun _ => ()) nic capacity s.outPkts (api.content s.channel.toEngine) = some out ∧
      api.content ring = out.toEngine ∧ xmitPkts pool api capacity nic s = some { s with
        engine := .receiving
        mempool := Mux.dropAll pool s.mempool (freedBy out.log)
        channel := { s.channel with toEngine := ring }
        outPkts := out.outPkts
        sent := s.sent ++ sentBy out.log } := by
  obtain ⟨freed, same, _⟩ := Port.sendLog (fun _ : Ptr => ()) nic s.outPkts
  obtain ⟨ring, content, fetched⟩ := fetchTakesNothing api capacity s
  obtain ⟨log, logged⟩ : ∃ log : Port.Log Ptr Unit, log = (s.outPkts.take (Port.accepted nic s.outPkts)).map
      (fun m => (m, .nic)) ++ freed ++ s.outPkts.flatMap (Port.pktmbufFree (fun _ => ())) := ⟨_, rfl⟩
  have transmitted : Port.xmitPkts (fun _ => ()) nic capacity s.outPkts (api.content s.channel.toEngine) =
      some ⟨Port.accepted nic s.outPkts, [], api.content s.channel.toEngine, log⟩ := by
    by_cases spare : capacity - s.outPkts.length > 0 <;>
      simp [Port.xmitPkts, spare, Port.dequeueBurst, same, logged]
  refine ⟨_, ring, transmitted, content, ?_⟩
  simp only [xmitPkts, xmit, fetched, same, logged]
  rfl

theorem recvPktsForgets (rx : Rx) (s : State P R Ptr) (spare : s.inPkts.length < capacity) :
    ∃ ring, api.content ring = api.content s.channel.toPacketiser ∧ recvPkts api capacity rx s = { s with
      engine := .fetching
      channel := { s.channel with toPacketiser := ring }
      waiting := (receive rx s.waiting (capacity - s.inPkts.length)).2
      inPkts := []
      engineLost := s.engineLost ++ (s.inPkts ++ (receive rx s.waiting (capacity - s.inPkts.length)).1) } := by
  have some : capacity - s.inPkts.length ≠ 0 := by omega
  obtain ⟨ring, content, forgot⟩ := handOverForgets api { s with
    engine := .handingOver
    waiting := (receive rx s.waiting (capacity - s.inPkts.length)).2
    inPkts := s.inPkts ++ (receive rx s.waiting (capacity - s.inPkts.length)).1 }
  refine ⟨ring, content, ?_⟩
  simp only [recvPkts, if_neg some]
  exact forgot

structure Round (rx : Rx) (s : State P R Ptr) (out : Port.Sent Ptr Unit) (t : State P R Ptr) : Prop where
  engine : t.engine = .receiving
  inPkts : t.inPkts = []
  waiting : t.waiting = (receive rx s.waiting (capacity - s.inPkts.length)).2
  engineLost : t.engineLost = s.engineLost ++ (s.inPkts ++ (receive rx s.waiting (capacity - s.inPkts.length)).1)
  outPkts : t.outPkts = out.outPkts
  sent : t.sent = s.sent ++ sentBy out.log
  mempool : t.mempool = Mux.dropAll pool s.mempool (freedBy out.log)
  toEngine : api.content t.channel.toEngine = out.toEngine
  toPacketiser : api.content t.channel.toPacketiser = api.content s.channel.toPacketiser

theorem roundAlone (rx : Rx) (nic : Port.Nic) {s : State P R Ptr} (starts : s.engine = .receiving)
    (spare : s.inPkts.length < capacity) :
    ∃ n out t, 3 ≤ n ∧ n ≤ 4 ∧
      Port.xmitPkts (fun _ => ()) nic capacity s.outPkts (api.content s.channel.toEngine) = some out ∧
      engineAlone pool api capacity rx nic n s = some t ∧ Round pool api capacity rx s out t := by
  obtain ⟨n, atLeast, atMost, steps⟩ := iterationAlone pool api capacity rx nic starts
  obtain ⟨ring, kept, received⟩ := recvPktsForgets api capacity rx s spare
  obtain ⟨out, other, transmitted, left, sends⟩ := xmitPktsAgrees pool api capacity nic (recvPkts api capacity rx s)
  rw [← steps, received] at sends
  rw [received] at transmitted
  exact ⟨n, out, _, atLeast, atMost, transmitted, sends, rfl, rfl, rfl, rfl, rfl, rfl, rfl, left, kept⟩

end Engine

section Samples

abbrev busy : State (List Nat) { items : List Nat // items.length ≤ 511 } Nat :=
  { boot [4, 5, 6] ⟨⟨[7], by decide⟩, ⟨[8, 9], by decide⟩⟩ with
    waiting := [10, 11], inPkts := [12], outPkts := [13, 14] }

theorem burstAloneAtBusy :
    ∃ n es ring, (∀ e ∈ es, e = .internal) ∧ (Ring.listRing Nat 511).content ring = [] ∧
      muxAlone (Mbuf.listMempool Nat) (Ring.listRing Nat 511) n busy = some (es ++ [.burst 2], { busy with
        mempool := [6]
        inBuf := [4, 5]
        channel := { busy.channel with toPacketiser := ring }
        muxLost := [8, 9] }) := by
  obtain ⟨n, es, sz, inBuf, mempool, quiet, answer, ran⟩ := @burstAlone (List Nat) _ Nat
    (Mbuf.listMempool Nat) (Ring.listRing Nat 511) busy rfl rfl
  cases answer.symm.trans (show _ = some (2, ⟨[4, 5], [6]⟩) from rfl)
  exact ⟨n, es, _, quiet, rfl, ran⟩

def oneOut : Port.Nic := fun offered => ⟨min 1 offered.toNat, by omega⟩

theorem roundAloneAtBusy :
    ∃ n out t, 3 ≤ n ∧ n ≤ 4 ∧ Port.xmitPkts (fun _ => ()) oneOut 32 [13, 14] [7] = some out ∧
      engineAlone (Mbuf.listMempool Nat) (Ring.listRing Nat 511) 32 Fin.last oneOut n busy = some t ∧
      Round (Mbuf.listMempool Nat) (Ring.listRing Nat 511) 32 Fin.last busy out t ∧
      t.engineLost = [12, 10, 11] ∧ t.waiting = [] ∧ t.sent = [13] ∧
      (Ring.listRing Nat 511).content t.channel.toEngine = [7] := by
  obtain ⟨n, out, t, low, high, transmitted, ran, round⟩ := roundAlone (Mbuf.listMempool Nat)
    (Ring.listRing Nat 511) 32 Fin.last oneOut (s := busy) rfl (by decide)
  refine ⟨n, out, t, low, high, transmitted, ran, round, round.engineLost, round.waiting, ?_, ?_⟩
  · cases transmitted
    exact round.sent
  · cases transmitted
    exact round.toEngine

end Samples

end Vdp.System
