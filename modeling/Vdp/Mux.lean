import Vdp.Lib.Fifo
import Vdp.Lib.Run
import Vdp.MbufPool
import Vdp.Ring

/-! The queues of the mux between the rings and its packet loop: `ArrayQueue`s of 512 places.
An `unwrap` that fails is `none`. What the other parts of the program and the other
processes do to the pool in between is the environment's. -/
namespace Vdp.Mux
open Lib
open Mbuf (RteMempool listMempool)
open Lib.Run (run runTotal)

def burstSz : Nat := 512

section Receive
variable {P Ptr : Type} (pool : RteMempool P Ptr)

structure State (P Ptr : Type) where
  inBuf : List Ptr
  mempool : P

def dropAll (mp : P) (mbufs : List Ptr) : P := mbufs.foldl pool.pktmbufFree mp

def allocLoop : Nat → (k : Nat) → P → (pkts : List Ptr) → List Ptr × P
  | 0, _, mp, pkts => (pkts, mp)
  | rounds + 1, k, mp, pkts => match pool.pktmbufAlloc mp with
    | some (buf, _, mp) => allocLoop rounds (k + 1) mp (pkts ++ [buf])
    | none => (pkts.take k, dropAll pool mp (pkts.drop k))

def allocate (s : State P Ptr) : List Ptr × P :=
  allocLoop pool (burstSz - s.inBuf.length) 0 s.mempool []

abbrev Burst (Ptr : Type) := (pkts : List Ptr) → Fin (pkts.length + 1)

def recvFromEngineBurst (burst : Burst Ptr) (s : State P Ptr) : Option (Nat × State P Ptr) :=
  let (pkts, mp) := allocate pool s
  let sz : Nat := burst pkts
  let mp := dropAll pool mp (pkts.drop sz)
  (Fifo.pushAll burstSz s.inBuf (pkts.take sz)).map (fun inBuf => (sz, ⟨inBuf, mp⟩))

def ringBurst {R : Type} (api : Ring.RteRing R Ptr) (ring : R) (len : Nat) : Burst Ptr := fun pkts =>
  ⟨(Ring.dequeueBurst api ring pkts len).ret.toNat, by
    rw [(Ring.dequeueBurstTakes api ring pkts len).1]
    have less := Nat.mod_le pkts.length (2 ^ 32)
    omega⟩

structure Taken (start mp : P) (pkts : List Ptr) : Prop where
  distinct : pkts.Nodup
  free : ∀ x ∈ pkts, x ∈ pool.available start
  rest : pool.available mp = pool.available start \ {x | x ∈ pkts}

theorem takenNone (mp : P) : Taken pool mp mp [] := ⟨List.nodup_nil, by simp, by simp⟩

theorem takenAlloc {start mp q : P} {pkts : List Ptr} {buf : Ptr} {m : Mbuf} (taken : Taken pool start mp pkts)
    (found : pool.pktmbufAlloc mp = some (buf, m, q)) : Taken pool start q (pkts ++ [buf]) := by
  obtain ⟨member, less⟩ := pool.allocated mp buf m q found
  rw [taken.rest] at member less
  refine ⟨?_, ?_, ?_⟩
  · exact List.nodup_append.mpr ⟨taken.distinct, List.nodup_singleton buf, by
      rintro x inside y single rfl
      rw [List.mem_singleton.mp single] at inside
      exact member.2 inside⟩
  · intro x inside
    rcases List.mem_append.mp inside with before | now
    · exact taken.free x before
    · rw [List.mem_singleton.mp now]
      exact member.1
  · rw [less]
    ext x
    simp only [Set.mem_sdiff, Set.mem_ofPred_eq, Set.mem_singleton_iff, List.mem_append, List.mem_singleton]
    tauto

theorem dropAllAvailable (mp : P) (mbufs : List Ptr) :
    pool.available (dropAll pool mp mbufs) = pool.available mp ∪ {x | x ∈ mbufs} := by
  induction mbufs generalizing mp with
  | nil => simp [dropAll]
  | cons m rest ih =>
    have later := ih (pool.pktmbufFree mp m)
    rw [dropAll, List.foldl_cons, ← dropAll, later, pool.freed]
    ext x
    simp only [Set.mem_union, Set.mem_insert_iff, Set.mem_ofPred_eq, List.mem_cons]
    tauto

theorem takenTruncate {start mp : P} {pkts : List Ptr} (taken : Taken pool start mp pkts) (k : Nat) :
    Taken pool start (dropAll pool mp (pkts.drop k)) (pkts.take k) := by
  have split : pkts.take k ++ pkts.drop k = pkts := List.take_append_drop k pkts
  have apart : ∀ x ∈ pkts.take k, x ∉ pkts.drop k := by
    have distinct := taken.distinct
    rw [← split] at distinct
    exact fun x kept cut => List.disjoint_of_nodup_append distinct kept cut
  refine ⟨taken.distinct.sublist (List.take_sublist k pkts), ?_, ?_⟩
  · intro x kept
    exact taken.free x (List.mem_of_mem_take kept)
  · rw [dropAllAvailable, taken.rest]
    ext x
    have free := taken.free x
    have apart := apart x
    have member : x ∈ pkts ↔ x ∈ pkts.take k ∨ x ∈ pkts.drop k := by rw [← List.mem_append, split]
    simp only [Set.mem_union, Set.mem_sdiff, Set.mem_ofPred_eq]
    tauto

theorem allocLoopTaken {start : P} (rounds : Nat) {k : Nat} {mp : P} {pkts : List Ptr}
    (taken : Taken pool start mp pkts) (count : pkts.length = k) :
    Taken pool start (allocLoop pool rounds k mp pkts).2 (allocLoop pool rounds k mp pkts).1 ∧
      (allocLoop pool rounds k mp pkts).1.length ≤ k + rounds := by
  induction rounds generalizing k mp pkts with
  | zero => exact ⟨taken, Nat.le_of_eq count⟩
  | succ rounds ih =>
    cases found : pool.pktmbufAlloc mp with
    | none =>
      simp only [allocLoop, found]
      refine ⟨takenTruncate pool taken k, ?_⟩
      rw [List.length_take]
      omega
    | some fresh =>
      obtain ⟨buf, m, q⟩ := fresh
      have next := ih (takenAlloc pool taken found) (show (pkts ++ [buf]).length = k + 1 by simp [count])
      simp only [allocLoop, found]
      exact ⟨next.1, by omega⟩

theorem allocLoopPreallocates [DecidableEq Ptr] (rounds : Nat) {mp : List Ptr} (distinct : mp.Nodup)
    (pkts : List Ptr) :
    allocLoop (listMempool Ptr) rounds pkts.length mp pkts =
      (pkts ++ (Ring.preallocate rounds mp).1, (Ring.preallocate rounds mp).2) := by
  induction rounds generalizing mp pkts with
  | zero => simp [allocLoop, Ring.preallocate]
  | succ rounds ih =>
    cases mp with
    | nil => simp [allocLoop, listMempool, Ring.preallocate, dropAll]
    | cons buf rest =>
      obtain ⟨absent, others⟩ := List.nodup_cons.mp distinct
      have same : rest.filter (· ≠ buf) = rest := by
        apply List.filter_eq_self.mpr
        intro x member
        have other : x ≠ buf := fun same => absent (by rwa [same] at member)
        simpa using other
      have next := ih others (pkts ++ [buf])
      rw [List.length_append, List.length_singleton] at next
      simp only [allocLoop, Ring.preallocate]
      rw [show (listMempool Ptr).pktmbufAlloc (buf :: rest) =
        some (buf, ⟨2176, 128, 0, 0, fun _ => 0⟩, rest.filter (· ≠ buf)) from rfl, same]
      simp [next]

structure Received (s : State P Ptr) (sz : Nat) (t : State P Ptr) (new : List Ptr) : Prop where
  order : t.inBuf = s.inBuf ++ new
  grows : t.inBuf.length = s.inBuf.length + sz
  bounded : t.inBuf.length ≤ burstSz
  own : ∀ x ∈ new, x ∈ (allocate pool s).1
  back : ∀ x ∈ (allocate pool s).1, x ∉ new → x ∈ pool.available t.mempool
  others : pool.available t.mempool = pool.available s.mempool \ {x | x ∈ new}

theorem recvReceives (burst : Burst Ptr) {s : State P Ptr} (fill : s.inBuf.length ≤ burstSz) :
    ∃ sz t new, recvFromEngineBurst pool burst s = some (sz, t) ∧ sz = burst (allocate pool s).1 ∧
      Received pool s sz t new := by
  obtain ⟨taken, count⟩ := allocLoopTaken pool (burstSz - s.inBuf.length) (takenNone pool s.mempool) List.length_nil
  rw [← allocate] at taken count
  obtain ⟨sz, within⟩ : ∃ sz, sz = ((burst (allocate pool s).1 : Fin _) : Nat) := ⟨_, rfl⟩
  have some : sz ≤ (allocate pool s).1.length := by
    rw [within]
    exact Nat.le_of_lt_succ (burst (allocate pool s).1).isLt
  have length : ((allocate pool s).1.take sz).length = sz := by
    rw [List.length_take]
    omega
  have room : s.inBuf.length + ((allocate pool s).1.take sz).length ≤ burstSz := by omega
  have kept := takenTruncate pool taken sz
  refine ⟨sz, ⟨s.inBuf ++ (allocate pool s).1.take sz, dropAll pool (allocate pool s).2
    ((allocate pool s).1.drop sz)⟩, (allocate pool s).1.take sz, ?_, within, ?_⟩
  · simp only [recvFromEngineBurst, ← within, Fifo.pushAllFits room, Option.map_some]
  · constructor
    case order => rfl
    case grows => rw [List.length_append, length]
    case bounded => rwa [List.length_append]
    case own => exact fun x inside => List.mem_of_mem_take inside
    case back =>
      intro x inside cut
      rw [kept.rest]
      exact ⟨taken.free x inside, cut⟩
    case others => exact kept.rest

inductive Act (P Ptr : Type) where
  | recv (burst : Burst Ptr)
  | pop
  | elsewhere (mempool : P)

inductive Event (Ptr : Type) where
  | received (sz : Nat)
  | popped (reply : Fifo.Reply Ptr)
  | elsewhere

def step (s : State P Ptr) : Act P Ptr → Option (Event Ptr × State P Ptr)
  | .recv burst => (recvFromEngineBurst pool burst s).map (fun r => (.received r.1, r.2))
  | .pop =>
    let r := Fifo.step burstSz s.inBuf .pop
    some (.popped r.1, { s with inBuf := r.2 })
  | .elsewhere mempool => some (.elsewhere, { s with mempool := mempool })

theorem stepSafe {s : State P Ptr} (a : Act P Ptr) (fill : s.inBuf.length ≤ burstSz) :
    ∃ e t, step pool s a = some (e, t) ∧ t.inBuf.length ≤ burstSz := by
  cases a with
  | recv burst =>
    obtain ⟨sz, t, new, returned, _, received⟩ := recvReceives pool burst fill
    exact ⟨.received sz, t, by simp [step, returned], received.bounded⟩
  | pop => exact ⟨_, _, rfl, Fifo.stepBounded .pop fill⟩
  | elsewhere mempool => exact ⟨_, _, rfl, fill⟩

theorem recvNeverOverflows (s : State P Ptr) (fill : s.inBuf.length ≤ burstSz) :
    (∀ burst : Burst Ptr, ∃ sz t new, recvFromEngineBurst pool burst s = some (sz, t) ∧
        sz = burst (allocate pool s).1 ∧ Received pool s sz t new) ∧
      ∀ acts, ∃ events u, run (step pool) s acts = some (events, u) ∧ u.inBuf.length ≤ burstSz := by
  refine ⟨fun burst => recvReceives pool burst fill, ?_⟩
  exact runTotal (fun _ _ (u : State P Ptr) => u.inBuf.length ≤ burstSz) (fun a fill => stepSafe pool a fill) fill

theorem recvNeverOverflowsAtThree :
    (∃ sz t new, recvFromEngineBurst (listMempool Nat)
        (ringBurst (Ring.listRing Nat 511) ⟨[7, 8], by decide⟩ 511) ⟨[1], [4, 5, 6]⟩ = some (sz, t) ∧
        sz = 2 ∧ Received (listMempool Nat) ⟨[1], [4, 5, 6]⟩ sz t new) ∧
      ∀ acts, ∃ events u, run (step (listMempool Nat)) ⟨[1], [4, 5, 6]⟩ acts = some (events, u) ∧
        u.inBuf.length ≤ 512 :=
  let safe := recvNeverOverflows (listMempool Nat) ⟨[1], [4, 5, 6]⟩ (by decide)
  ⟨safe.1 (ringBurst (Ring.listRing Nat 511) ⟨[7, 8], by decide⟩ 511), safe.2⟩

end Receive

section Transmit
variable {R Ptr : Type} (api : Ring.RteRing R Ptr)

def drainLoop (outBuf pkts : List Ptr) : Option (List Ptr × List Ptr) :=
  if outBuf.isEmpty then some (outBuf, pkts)
  else match _popped : Fifo.step burstSz outBuf .pop with
    | (.taken pkt, rest) => drainLoop rest (pkts ++ [pkt])
    | _ => none
termination_by outBuf.length
decreasing_by
  rw [Fifo.stepTaken _popped]
  exact Nat.lt_succ_self rest.length

structure Sent (R Ptr : Type) where
  sz : UInt64
  ring : R
  outBuf : List Ptr
  freed : List Ptr

/- What `enqueue_bulk` leaves in the vector is dropped with it. -/
def xmitToEngineBulk (ring : R) (outBuf : List Ptr) : Option (Sent R Ptr) :=
  if outBuf.isEmpty then some ⟨0, ring, outBuf, []⟩
  else do
    let (outBuf, pkts) ← drainLoop outBuf []
    let out := Ring.enqueueBulk api ring pkts
    some ⟨out.ret, out.ring, outBuf, out.freed ++ out.pkts⟩

theorem drainLoopAll (outBuf pkts : List Ptr) : drainLoop outBuf pkts = some ([], pkts ++ outBuf) := by
  induction outBuf generalizing pkts with
  | nil => simp [drainLoop]
  | cons pkt rest ih =>
    rw [drainLoop]
    simp [Fifo.step, ih]

structure NoneLost (ring : R) (outBuf : List Ptr) (out : Sent R Ptr) (sent : List Ptr) : Prop where
  queued : api.content out.ring = api.content ring ++ sent
  counted : out.sz.toNat = sent.length
  once : (sent ++ out.outBuf ++ out.freed).Perm outBuf
  order : sent.Sublist outBuf ∧ out.outBuf.Sublist outBuf ∧ out.freed.Sublist outBuf

theorem xmitLosesAll {outBuf : List Ptr} (some : outBuf ≠ []) (ring : R) :
    ∃ after, xmitToEngineBulk api ring outBuf = .some ⟨0, after, [], []⟩ ∧ api.content after = api.content ring := by
  obtain ⟨ret, content, left, freed⟩ := Ring.enqueueBulkDrains api ring outBuf
  refine ⟨(Ring.enqueueBulk api ring outBuf).ring, ?_, content⟩
  have nonempty : outBuf.isEmpty = false := by simpa using some
  simp [xmitToEngineBulk, nonempty, drainLoopAll, ret, left, freed]

theorem xmitKeepsOnlyNone {ring : R} {outBuf sent : List Ptr} {out : Sent R Ptr}
    (returned : xmitToEngineBulk api ring outBuf = some out) (kept : NoneLost api ring outBuf out sent) :
    outBuf = [] := by
  by_contra some
  obtain ⟨after, lost, _⟩ := xmitLosesAll api some ring
  rw [returned] at lost
  cases lost
  have none : sent = [] := List.eq_nil_of_length_eq_zero kept.counted.symm
  have once := kept.once
  simp only [none, List.append_nil] at once
  exact some once.nil_eq.symm

theorem xmitKeepsIffEmpty (ring : R) (outBuf : List Ptr) :
    (∃ out sent, xmitToEngineBulk api ring outBuf = some out ∧ NoneLost api ring outBuf out sent) ↔ outBuf = [] := by
  constructor
  · rintro ⟨out, sent, returned, kept⟩
    exact xmitKeepsOnlyNone api returned kept
  · rintro rfl
    refine ⟨⟨0, ring, [], []⟩, [], by simp [xmitToEngineBulk], ?_⟩
    constructor <;> simp

theorem xmitKeepsIffEmptyAtOne :
    (∃ out sent, xmitToEngineBulk (Ring.listRing Nat 511) ⟨[7], by decide⟩ [] = some out ∧
        NoneLost (Ring.listRing Nat 511) ⟨[7], by decide⟩ [] out sent) ∧
      ¬ ∃ out sent, xmitToEngineBulk (Ring.listRing Nat 511) ⟨[7], by decide⟩ [8] = some out ∧
        NoneLost (Ring.listRing Nat 511) ⟨[7], by decide⟩ [8] out sent :=
  ⟨(xmitKeepsIffEmpty (Ring.listRing Nat 511) ⟨[7], by decide⟩ []).mpr rfl,
    fun kept => by cases (xmitKeepsIffEmpty (Ring.listRing Nat 511) ⟨[7], by decide⟩ [8]).mp kept⟩

theorem xmitOfOneLost :
    ¬ ∃ out sent, xmitToEngineBulk (Ring.listRing Nat 511) ⟨[], by decide⟩ [7] = some out ∧
      NoneLost (Ring.listRing Nat 511) ⟨[], by decide⟩ [7] out sent := by
  rintro ⟨out, sent, returned, kept⟩
  cases xmitKeepsOnlyNone (Ring.listRing Nat 511) returned kept

end Transmit

end Vdp.Mux
