import Vdp.Port
import Mathlib.Data.List.Count
import Mathlib.Data.List.Nodup

/-! Freeing many buffers at once. `mbuf_free_bulk` stands twice in the source, as a function
of `apis` and of `Mbuf`; the two differ on the empty list only. The loop remembers the pool
of the first buffer and never another one, so a batch cut off for a change of pool still
goes to the first. -/
namespace Vdp.FreeBulk
open Port (Log Holder mempoolPutBulk freeLoop batches freeLoopBatches)

variable {Ptr Pool : Type}

theorem putBulkAll {p : Pool} {mbufs : List Ptr} (short : mbufs.length < 2 ^ 32) :
    mempoolPutBulk p mbufs (UInt32.ofNat mbufs.length) = mbufs.map (fun m => (m, .pool p)) := by
  have count : (UInt32.ofNat mbufs.length).toNat = mbufs.length := by
    rw [UInt32.toNat_ofNat']
    omega
  rw [mempoolPutBulk, count, List.take_length]

variable [DecidableEq Pool]

def mbufFreeBulk (pool : Ptr → Pool) : List Ptr → Log Ptr Pool
  | [] => []
  | m :: rest => freeLoop pool (pool m) [] (m :: rest)

def freeBulk (pool : Ptr → Pool) (mbufs : List Ptr) : Log Ptr Pool := mbufFreeBulk pool mbufs

structure ReturnedOnce [DecidableEq Ptr] (pool : Ptr → Pool) (mbufs : List Ptr) (log : Log Ptr Pool) : Prop where
  once : ∀ m ∈ mbufs, (log.map Prod.fst).count m = 1
  only : ∀ e ∈ log, e.1 ∈ mbufs
  own : ∀ e ∈ log, e.2 = .pool (pool e.1)

theorem freeLoopFirst {pool : Ptr → Pool} {first : Pool} {toFree rest : List Ptr} :
    ∀ e ∈ freeLoop pool first toFree rest, e.2 = .pool first := by
  intro e member
  rw [freeLoopBatches] at member
  obtain ⟨batch, _, put⟩ := List.mem_flatMap.mp member
  obtain ⟨m, _, rfl⟩ := List.mem_map.mp put
  rfl

theorem freeLoopSame {pool : Ptr → Pool} {first : Pool} {toFree rest : List Ptr} (same : ∀ m ∈ rest, pool m = first) :
    freeLoop pool first toFree rest =
      mempoolPutBulk first (toFree ++ rest) (UInt32.ofNat (toFree ++ rest).length) := by
  induction rest generalizing toFree with
  | nil => rw [freeLoop, List.append_nil]
  | cons m rest ih =>
    have head : first = pool m := (same m List.mem_cons_self).symm
    have tail : ∀ x ∈ rest, pool x = first := fun x later => same x (List.mem_cons_of_mem m later)
    rw [freeLoop, if_pos head, ih tail, List.append_assoc, List.singleton_append]

variable [DecidableEq Ptr]

/- Whatever is put goes to the first buffer's pool, so all of them are to be its own; and
then one call puts them all, as far as its 32-bit count reaches. -/
theorem returnedOnlyFromOnePool {pool : Ptr → Pool} {m : Ptr} {rest : List Ptr} (distinct : (m :: rest).Nodup)
    (returned : ReturnedOnce pool (m :: rest) (mbufFreeBulk pool (m :: rest))) :
    (∀ x ∈ rest, pool x = pool m) ∧ (m :: rest).length < 2 ^ 32 := by
  have put : ∀ x ∈ m :: rest, x ∈ (mbufFreeBulk pool (m :: rest)).map Prod.fst := by
    intro x member
    apply List.count_pos_iff.mp
    rw [returned.once x member]
    exact Nat.one_pos
  have same : ∀ x ∈ m :: rest, pool x = pool m := by
    intro x member
    obtain ⟨e, logged, rfl⟩ := List.mem_map.mp (put x member)
    have own := returned.own e logged
    rw [freeLoopFirst e logged] at own
    exact (Holder.pool.inj own).symm
  refine ⟨fun x later => same x (List.mem_cons_of_mem m later), ?_⟩
  have all : (m :: rest).length ≤ ((mbufFreeBulk pool (m :: rest)).map Prod.fst).length :=
    (List.subperm_of_subset distinct put).length_le
  rw [mbufFreeBulk, freeLoopSame same, mempoolPutBulk, List.nil_append] at all
  simp only [List.length_map, List.length_take, UInt32.toNat_ofNat'] at all
  omega

theorem onePoolReturned {pool : Ptr → Pool} {m : Ptr} {rest : List Ptr} (distinct : (m :: rest).Nodup)
    (same : ∀ x ∈ rest, pool x = pool m) (short : (m :: rest).length < 2 ^ 32) :
    ReturnedOnce pool (m :: rest) (mbufFreeBulk pool (m :: rest)) := by
  have all : ∀ x ∈ m :: rest, pool x = pool m := List.forall_mem_cons.mpr ⟨rfl, same⟩
  rw [mbufFreeBulk, freeLoopSame all, List.nil_append, putBulkAll short]
  constructor
  case once =>
    intro x member
    rw [List.map_map, show Prod.fst ∘ (fun m => (m, Holder.pool (pool _))) = id from rfl, List.map_id]
    exact List.count_eq_one_of_mem distinct member
  case only =>
    intro e member
    obtain ⟨x, inside, rfl⟩ := List.mem_map.mp member
    exact inside
  case own =>
    intro e member
    obtain ⟨x, inside, rfl⟩ := List.mem_map.mp member
    rw [all x inside]

theorem freeBulkReturnsIffOnePool (pool : Ptr → Pool) (m : Ptr) (rest : List Ptr) (distinct : (m :: rest).Nodup) :
    (ReturnedOnce pool (m :: rest) (freeBulk pool (m :: rest)) ↔
        (∀ x ∈ rest, pool x = pool m) ∧ (m :: rest).length < 2 ^ 32) ∧
      Port.mbufFreeBulk pool (m :: rest) = some (freeBulk pool (m :: rest)) := by
  refine ⟨?_, rfl⟩
  constructor
  · exact returnedOnlyFromOnePool distinct
  · rintro ⟨same, short⟩
    exact onePoolReturned distinct same short

theorem freeBulkReturnsIffOnePoolAtTwo :
    ReturnedOnce (fun _ : Nat => 0) [7, 8] (freeBulk (fun _ : Nat => 0) [7, 8]) :=
  (freeBulkReturnsIffOnePool (fun _ : Nat => 0) 7 [8] (by decide)).1.mpr (by decide)

theorem secondPoolMissed :
    freeBulk (fun m : Nat => m - 7) [7, 8] = [(7, .pool 0), (8, .pool 0)] ∧
      ¬ ReturnedOnce (fun m : Nat => m - 7) [7, 8] (freeBulk (fun m : Nat => m - 7) [7, 8]) := by
  refine ⟨by decide, ?_⟩
  intro returned
  exact absurd (returned.own (8, .pool 0) (by decide)) (by decide)

end Vdp.FreeBulk
