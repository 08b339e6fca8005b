import Vdp.MemEnpsf

/-! One `MemEnpsf` on its own, under any sequence of its four operations. Both queues lie
in one flat mapping and are kept apart by address arithmetic alone; the mapping has `cap`
bytes, although each queue needs `cap` slots; and the stream is told about one queue only. -/
namespace Vdp.Memenpsf
open Lib.Slots IpcQueue
open Lib.Run (run runTotal)

structure Device where
  dev : MemEnpsf
  shm : Shm

def Call.side : Call → Side
  | .xmit side _ => side
  | .recv side => side

def Call.op : Call → Lib.Fifo.Call Packet
  | .xmit _ pkt => .push pkt
  | .recv _ => .pop

def Device.ring (s : Device) (side : Side) : State Shm := ⟨s.dev.queue side, s.shm⟩

def Device.accesses (s : Device) (c : Call) : List Int :=
  match callStep slots (s.ring c.side) c.op with
  | none => []
  | some (ev, _) => ev.touched.map (fun i => slots.addr (s.dev.queue c.side).base i.toInt)

structure Event where
  call : Call
  ret : Ret Packet
  message : Message
  accesses : List Int
  dev : MemEnpsf

def serve (s : Device) (c : Call) : Option (Event × Device) :=
  match c with
  | .xmit .s2c pkt => (xmitToClient s.dev s.shm pkt).map (fun fx =>
      (⟨c, .push fx.ret, fx.message, s.accesses c, fx.dev⟩, ⟨fx.dev, fx.shm⟩))
  | .recv .c2s => (recvFromClient s.dev s.shm).map (fun fx =>
      (⟨c, .pop fx.ret, fx.message, s.accesses c, fx.dev⟩, ⟨fx.dev, fx.shm⟩))
  | .recv .s2c => (recvFromSrv s.dev s.shm).map (fun fx =>
      (⟨c, .pop fx.ret, fx.message, s.accesses c, fx.dev⟩, ⟨fx.dev, fx.shm⟩))
  | .xmit .c2s pkt => (xmitToSrv s.dev s.shm pkt).map (fun fx =>
      (⟨c, .push fx.ret, fx.message, s.accesses c, fx.dev⟩, ⟨fx.dev, fx.shm⟩))

def Device.set (s : Device) (side : Side) (t : State Shm) : Device := ⟨s.dev.setQueue side t.ring, t.mem⟩

theorem serveOn {s : Device} {c : Call} {ev t} (done : callStep slots (s.ring c.side) c.op = some (ev, t)) :
    serve s c = some (⟨c, ev.ret, (s.set c.side t).dev.c2sQ.pointers,
      ev.touched.map (fun i => slots.addr (s.dev.queue c.side).base i.toInt), (s.set c.side t).dev⟩,
        s.set c.side t) := by
  have places : s.accesses c = ev.touched.map (fun i => slots.addr (s.dev.queue c.side).base i.toInt) := by
    simp only [Device.accesses, done]
  rw [← places]
  cases c with
  | xmit side pkt =>
    simp only [Call.side, Call.op, Device.ring, callStep, Option.map_eq_some_iff] at done
    obtain ⟨fx, pushed, same⟩ := done
    cases same
    cases side
    · simp only [serve, xmitToClient, xmitOn, pushed]
      rfl
    · simp only [serve, xmitToSrv, xmitOn, pushed]
      rfl
  | recv side =>
    simp only [Call.side, Call.op, Device.ring, callStep, Option.map_eq_some_iff] at done
    obtain ⟨fx, popped, same⟩ := done
    cases same
    cases side
    · simp only [serve, recvFromSrv, recvOn, popped]
      rfl
    · simp only [serve, recvFromClient, recvOn, popped]
      rfl

@[simp] theorem queueSetSame (dev : MemEnpsf) (side : Side) (r : RingBuf) : (dev.setQueue side r).queue side = r := by
  cases side <;> rfl

theorem queueSetOther (dev : MemEnpsf) {side other : Side} (different : other ≠ side) (r : RingBuf) :
    (dev.setQueue side r).queue other = dev.queue other := by
  cases side <;> cases other <;> first | rfl | contradiction

theorem keptElsewhere {s : Device} {side : Side} {t : State Shm} {P : Side → RingBuf → Prop}
    (before : ∀ other, other ≠ side → P other (s.dev.queue other)) (changed : P side t.ring) :
    ∀ other, P other ((s.set side t).dev.queue other) := by
  intro other
  by_cases same : other = side
  · subst same
    simpa only [Device.set, queueSetSame] using changed
  · simpa only [Device.set, queueSetOther _ same] using before other same

theorem mtuPositive : 0 < mtu := by decide

def Occupies (r : RingBuf) (a : Int) : Prop := r.base ≤ a ∧ a < r.base + r.size * mtu

theorem slotOccupied {r : RingBuf} {j : Int64} (inside : InRange r.size [j]) {a : Int}
    (low : slots.addr r.base j.toInt ≤ a) (high : a < slots.addr r.base j.toInt + mtu) : Occupies r a := by
  obtain ⟨first, last⟩ := inside j (List.mem_singleton.mpr rfl)
  have whole := addrInside slots r.base first last
  simp only [slots, blocks] at whole low high
  exact ⟨by omega, by omega⟩

/- A call of a ring reads and writes nothing but the bytes of that ring: in two memories
that agree there it answers the same, and they agree there again. -/
theorem callAgree {r : RingBuf} {m m' : Shm} (inside : InBounds r) (same : ∀ a, Occupies r a → m a = m' a)
    (c : Lib.Fifo.Call Packet) :
    ∃ ev next after after', callStep slots ⟨r, m⟩ c = some (ev, ⟨next, after⟩) ∧
      callStep slots ⟨r, m'⟩ c = some (ev, ⟨next, after'⟩) ∧ InBounds next ∧ next.base = r.base ∧
      next.size = r.size ∧ (∀ a, Occupies r a → after a = after' a) ∧ ∀ a, ¬ Occupies r a → after a = m a := by
  cases c with
  | push pkt =>
    rcases pushShape inside slots pkt with full | ⟨j, range, next, done⟩
    · have first : callStep slots ⟨r, m⟩ (.push pkt) = _ := stepOfPush (full m)
      have second : callStep slots ⟨r, m'⟩ (.push pkt) = _ := stepOfPush (full m')
      exact ⟨_, _, _, _, first, second, inside, rfl, rfl, same, fun a outside => rfl⟩
    · have first : callStep slots ⟨r, m⟩ (.push pkt) = _ := stepOfPush (done m)
      have second : callStep slots ⟨r, m'⟩ (.push pkt) = _ := stepOfPush (done m')
      refine ⟨_, _, _, _, first, second, next, rfl, rfl, ?_, ?_⟩
      · intro a occupied
        exact blocksStoreSame mtuPositive (same a occupied)
      · intro a outside
        apply blocksStoreOutside mtuPositive
        by_contra within
        exact outside (slotOccupied range (by omega) (by omega))
  | pop =>
    rcases popShape inside slots with empty | ⟨j, range, next, done⟩
    · have first : callStep slots ⟨r, m⟩ .pop = _ := stepOfPop (empty m)
      have second : callStep slots ⟨r, m'⟩ .pop = _ := stepOfPop (empty m')
      exact ⟨_, _, _, _, first, second, inside, rfl, rfl, same, fun a outside => rfl⟩
    · have read : slots.load m (slots.addr r.base j.toInt) = slots.load m' (slots.addr r.base j.toInt) :=
        blocksLoadSame mtuPositive (fun a low high => same a (slotOccupied range low high))
      have other := done m'
      rw [← read] at other
      have first : callStep slots ⟨r, m⟩ .pop = _ := stepOfPop (done m)
      have second : callStep slots ⟨r, m'⟩ .pop = _ := stepOfPop other
      exact ⟨_, _, _, _, first, second, next, rfl, rfl, same, fun a outside => rfl⟩

def queueOffset (cap : UInt64) : Side → Int
  | .s2c => 0
  | .c2s => (cap * UInt64.ofNat mtu).toInt64.toInt

def slotCount (cap : UInt64) : Nat := cap.toInt64.toInt.natAbs

theorem queueNew (name : String) (cap : UInt64) (region : Int) (side : Side) :
    (MemEnpsf.new name cap region).queue side = RingBuf.new (region + queueOffset cap side) cap := by
  cases side
  · simp only [MemEnpsf.new, MemEnpsf.queue, queueOffset, Int.add_zero]
  · rfl

theorem productNat (cap : UInt64) : (cap * UInt64.ofNat mtu).toNat = cap.toNat * mtu % 2 ^ 64 := by
  rw [UInt64.toNat_mul]
  rfl

theorem offsetExact {cap : UInt64} (fits : cap.toNat * mtu < 2 ^ 63) : queueOffset cap .c2s = cap.toNat * mtu := by
  have product := productNat cap
  rw [Nat.mod_eq_of_lt (by omega)] at product
  rw [queueOffset, Lib.Words.toIntOfSmall (by omega), product, Nat.cast_mul]

def queueBase (region : Int) (n : Nat) : Side → Int
  | .s2c => region
  | .c2s => region + n * mtu

def InQueue (region : Int) (n : Nat) (side : Side) (a : Int) : Prop :=
  queueBase region n side ≤ a ∧ a < queueBase region n side + n * mtu

theorem queuesApart {region : Int} {n : Nat} {side other : Side} (different : other ≠ side) {a : Int}
    (inside : InQueue region n other a) : ¬ InQueue region n side a := by
  cases side <;> cases other <;> simp only [InQueue, queueBase] at * <;> first | contradiction | omega

structure Beside (region : Int) (n : Nat) (s : Device) (alone : Side → State Shm) : Prop where
  ring : ∀ side, s.dev.queue side = (alone side).ring
  base : ∀ side, (s.dev.queue side).base = queueBase region n side
  size : ∀ side, (s.dev.queue side).size = n
  inside : ∀ side, InBounds (s.dev.queue side)
  bytes : ∀ side a, InQueue region n side a → s.shm a = (alone side).mem a

theorem Beside.occupies {region n s alone} (b : Beside region n s alone) (side : Side) (a : Int) :
    Occupies (s.dev.queue side) a ↔ InQueue region n side a := by
  rw [Occupies, InQueue, b.base, b.size]

structure Untouched (region : Int) (n : Nat) (side : Side) (s t : Device) : Prop where
  queue : t.dev.queue side = s.dev.queue side
  bytes : ∀ a, InQueue region n side a → t.shm a = s.shm a

theorem besideStep {region n s alone} (b : Beside region n s alone) (c : Call) :
    ∃ ev t ev' u, serve s c = some (ev, t) ∧ callStep slots (alone c.side) c.op = some (ev', u) ∧
      ev.call = c ∧ ev.ret = ev'.ret ∧ Beside region n t (Function.update alone c.side u) ∧
      ∀ other, other ≠ c.side → Untouched region n other s t := by
  have same : ∀ a, Occupies (s.dev.queue c.side) a → s.shm a = (alone c.side).mem a := by
    intro a occupied
    exact b.bytes c.side a ((b.occupies c.side a).mp occupied)
  obtain ⟨ev, next, after, after', done, beside, inside, base, size, agree, frame⟩ :=
    callAgree (b.inside c.side) same c.op
  rw [b.ring c.side] at beside
  have kept : ∀ other, other ≠ c.side → ∀ a, InQueue region n other a → after a = s.shm a := by
    intro other different a within
    apply frame
    rw [b.occupies]
    exact queuesApart different within
  refine ⟨_, _, ev, _, serveOn done, beside, rfl, rfl, ?_, ?_⟩
  · constructor
    case ring =>
      intro side
      by_cases mine : side = c.side
      · subst mine
        simp only [Device.set, queueSetSame, Function.update_self]
      · simp only [Device.set, queueSetOther _ mine, Function.update_of_ne mine]
        exact b.ring side
    case base =>
      exact keptElsewhere (P := fun other r => r.base = queueBase region n other)
        (fun other _ => b.base other) (base.trans (b.base _))
    case size =>
      exact keptElsewhere (P := fun _ r => r.size = n) (fun other _ => b.size other) (size.trans (b.size _))
    case inside => exact keptElsewhere (fun other _ => b.inside other) inside
    case bytes =>
      intro side a within
      by_cases mine : side = c.side
      · subst mine
        rw [Function.update_self]
        exact agree a ((b.occupies _ a).mpr within)
      · rw [Function.update_of_ne mine]
        exact (kept side mine a within).trans (b.bytes side a within)
  · intro other different
    exact ⟨queueSetOther _ different _, kept other different⟩

def callsOn (side : Side) (calls : List Call) : List (Lib.Fifo.Call Packet) :=
  (calls.filter (fun c => c.side = side)).map Call.op

def retsOn (side : Side) (events : List Event) : List (Ret Packet) :=
  (events.filter (fun ev => ev.call.side = side)).map Event.ret

theorem callsOnSame {side : Side} {c : Call} (same : c.side = side) (calls : List Call) :
    callsOn side (calls ++ [c]) = callsOn side calls ++ [c.op] := by
  simp [callsOn, same]

theorem callsOnOther {side : Side} {c : Call} (different : c.side ≠ side) (calls : List Call) :
    callsOn side (calls ++ [c]) = callsOn side calls := by
  simp [callsOn, different]

theorem retsOnSame {side : Side} {ev : Event} (same : ev.call.side = side) (events : List Event) :
    retsOn side (events ++ [ev]) = retsOn side events ++ [ev.ret] := by
  simp [retsOn, same]

theorem retsOnOther {side : Side} {ev : Event} (different : ev.call.side ≠ side) (events : List Event) :
    retsOn side (events ++ [ev]) = retsOn side events := by
  simp [retsOn, different]

theorem besideNew (name : String) {cap : UInt64} (region : Int) (shm : Shm) (nonzero : cap ≠ 0)
    (fits : cap.toNat * mtu < 2 ^ 63) :
    Beside region cap.toNat ⟨MemEnpsf.new name cap region, shm⟩
      (fun side => ⟨RingBuf.new (queueBase region cap.toNat side) cap, shm⟩) := by
  have small : cap.toNat < 2 ^ 63 := lt_of_le_of_lt (Nat.le_mul_of_pos_right _ mtuPositive) fits
  have bases : ∀ side, region + queueOffset cap side = queueBase region cap.toNat side := by
    intro side
    cases side
    · exact Int.add_zero region
    · rw [offsetExact fits, queueBase]
  constructor
  case ring => intro side; rw [queueNew, bases]
  case base => intro side; rw [queueNew, bases]; rfl
  case size => intro side; rw [queueNew]; exact sizeNew _ small
  case inside => intro side; rw [queueNew]; exact inBoundsNew _ nonzero
  case bytes => intro side a _; rfl

/- After the calls `done`, each queue is where its own ring would be had it been given its
share of them alone, and has answered the same. -/
structure Projected (region : Int) (cap : UInt64) (shm : Shm) (done : List Call) (past : List Event) (s : Device)
    (alone : Side → State Shm) : Prop where
  beside : Beside region cap.toNat s alone
  ran : ∀ side, ∃ evs,
    run (callStep slots) ⟨RingBuf.new (queueBase region cap.toNat side) cap, shm⟩ (callsOn side done) =
      some (evs, alone side) ∧ retsOn side past = evs.map IpcQueue.Event.ret

theorem projectedStep {region cap shm done past s alone} (h : Projected region cap shm done past s alone) (c : Call) :
    ∃ ev t alone', serve s c = some (ev, t) ∧
      Projected region cap shm (done ++ [c]) (past ++ [ev]) t alone' := by
  obtain ⟨ev, t, ev', u, served, called, mine, ret, next, _⟩ := besideStep h.beside c
  refine ⟨ev, t, _, served, next, ?_⟩
  intro side
  obtain ⟨evs, ran, rets⟩ := h.ran side
  by_cases same : c.side = side
  · subst same
    rw [Function.update_self, callsOnSame rfl, retsOnSame (by rw [mine])]
    exact ⟨_, Lib.Run.runExtend ran called, by simp [rets, ret]⟩
  · rw [Function.update_of_ne (Ne.symm same), callsOnOther same, retsOnOther (by rw [mine]; exact same)]
    exact ⟨evs, ran, rets⟩

theorem projectedRun (name : String) {cap : UInt64} (region : Int) (shm : Shm) (nonzero : cap ≠ 0)
    (fits : cap.toNat * mtu < 2 ^ 63) (calls : List Call) :
    ∃ events s, run serve ⟨MemEnpsf.new name cap region, shm⟩ calls = some (events, s) ∧
      ∃ alone, Projected region cap shm calls events s alone := by
  apply runTotal (fun done past s => ∃ alone, Projected region cap shm done past s alone)
  · rintro done past s c ⟨alone, h⟩
    obtain ⟨ev, t, alone', served, next⟩ := projectedStep h c
    exact ⟨ev, t, served, alone', next⟩
  · exact ⟨_, besideNew name region shm nonzero fits, fun side => ⟨[], rfl, rfl⟩⟩

theorem queuesDoNotInterfere (name : String) (cap : UInt64) (region : Int) (shm : Shm)
    (atLeast : 1 ≤ cap.toNat) (fits : 2 * cap.toNat * mtu < 2 ^ 63) (calls : List Call) :
    ∃ events s, run serve ⟨MemEnpsf.new name cap region, shm⟩ calls = some (events, s) ∧
      (∀ c, ∃ ev t, serve s c = some (ev, t) ∧
        ∀ other, other ≠ c.side → Untouched region cap.toNat other s t) ∧
      ∀ side, ∃ alone u,
        run (callStep slots) ⟨RingBuf.new (queueBase region cap.toNat side) cap, shm⟩ (callsOn side calls) =
          some (alone, u) ∧
        retsOn side events = alone.map IpcQueue.Event.ret := by
  have nonzero : cap ≠ 0 := Lib.Words.nonzeroOfPositive atLeast
  obtain ⟨events, s, ran, alone, h⟩ :=
    projectedRun name region shm nonzero (by rw [Nat.mul_assoc] at fits; omega) calls
  refine ⟨events, s, ran, ?_, ?_⟩
  · intro c
    obtain ⟨ev, t, _, _, served, _, _, _, _, untouched⟩ := besideStep h.beside c
    exact ⟨ev, t, served, untouched⟩
  · intro side
    obtain ⟨evs, apart, rets⟩ := h.ran side
    exact ⟨evs, _, apart, rets⟩

theorem queuesDoNotInterfereAtTwenty :
    ∃ events s, run serve ⟨MemEnpsf.new "mux" 20 0, fun _ => 0⟩
        [.xmit .s2c (Vector.replicate mtu 1), .recv .c2s] = some (events, s) ∧
      ∃ alone u, run (callStep slots) ⟨RingBuf.new 0 20, fun _ => 0⟩ [.push (Vector.replicate mtu 1)] =
          some (alone, u) ∧
        retsOn .s2c events = alone.map IpcQueue.Event.ret := by
  obtain ⟨events, s, ran, _, alone⟩ := queuesDoNotInterfere "mux" 20 0 (fun _ => 0) (by decide) (by decide)
    [.xmit .s2c (Vector.replicate mtu 1), .recv .c2s]
  exact ⟨events, s, ran, alone .s2c⟩

abbrev Tallies := Side → Lib.Fifo.Tally

def tallyCall (n : Nat) (t : Tallies) (c : Call) : Tallies :=
  Function.update t c.side (Lib.Fifo.tally (n - 1) (t c.side) c.op)

def tallies (n : Nat) (calls : List Call) : Tallies := calls.foldl (tallyCall n) (fun _ => ⟨0, 0⟩)

theorem talliesSnoc (n : Nat) (calls : List Call) (c : Call) :
    tallies n (calls ++ [c]) = tallyCall n (tallies n calls) c := by
  simp [tallies]

structure Tallied (base : Side → Int) (n : Nat) (s : Device) (t : Tallies) : Prop where
  base : ∀ side, (s.dev.queue side).base = base side
  counted : ∀ side, Counted n (s.dev.queue side) (t side)

theorem talliedStep {base n s t} (h : Tallied base n s t) (c : Call) :
    ∃ ev u, serve s c = some (ev, u) ∧ ev.call = c ∧ ev.dev = u.dev ∧ ev.message = u.dev.c2sQ.pointers ∧
      ev.accesses = (Lib.Fifo.visited (n - 1) (t c.side) c.op).map
        (fun k => slots.addr (base c.side) (k % n : Nat)) ∧
      (∀ other, other ≠ c.side → u.dev.queue other = s.dev.queue other) ∧ Tallied base n u (tallyCall n t c) := by
  obtain ⟨ev, u, done, counted, same, touched⟩ :=
    @callCounts _ _ slots n (s.ring c.side) _ (h.counted c.side) c.op
  refine ⟨_, _, serveOn done, rfl, rfl, rfl, ?_, fun other different => queueSetOther _ different _, ?_, ?_⟩
  · have places := congrArg (List.map (slots.addr (base c.side))) touched
    rw [h.base]
    simpa only [List.map_map, Function.comp_def] using places
  · exact keptElsewhere (P := fun other r => r.base = base other) (fun other _ => h.base other)
      (same.trans (h.base _))
  · apply keptElsewhere (P := fun other r => Counted n r (tallyCall n t c other))
    · intro other different
      simpa only [tallyCall, Function.update_of_ne different] using h.counted other
    · simpa only [tallyCall, Function.update_self] using counted

theorem talliedNew (name : String) {cap : UInt64} (region : Int) (shm : Shm) (nonzero : cap ≠ 0) :
    Tallied (fun side => region + queueOffset cap side) (slotCount cap) ⟨MemEnpsf.new name cap region, shm⟩
      (fun _ => ⟨0, 0⟩) where
  base side := by rw [queueNew]; rfl
  counted side := by rw [queueNew]; exact countedNew _ nonzero

end Vdp.Memenpsf
