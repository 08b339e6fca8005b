import Mathlib

/-! `Ring` of `l3enginelib` and its hand-over of packets. The ring library is outside the
repository: it is any implementation that keeps to its documentation. An `Mbuf` is the
pointer it wraps; `into_ptr` forgets it, and a raw pointer that is dropped frees nothing. -/
namespace Vdp.Ring

inductive MemoryError where
  | noConfig
  | secondaryProcess
  | invalid
  | noSpace
  | exists
  | noMem
  | noBuf
  | noEntries
  | badVal
  deriving DecidableEq, Repr

/- The ring calls return their code and leave `rte_errno` alone, so this is the code of
whatever failed last. -/
def MemoryError.new (errno : Int) : MemoryError := match errno with
  | 1001 => .secondaryProcess
  | 1002 => .noConfig
  | 22 => .invalid
  | 28 => .noSpace
  | 17 => .exists
  | 12 => .noMem
  | 105 => .noBuf
  | 2 => .noEntries
  | _ => .badVal

/- The oldest pointer stands first in `content`; `space` is the number of free places. -/
structure RteRing (R Ptr : Type) where
  content : R → List Ptr
  space : R → Nat
  enqueue : R → Ptr → Int32 × R
  dequeue : R → (place : Ptr) → Int32 × Ptr × R
  enqueueBulk : R → (table : List Ptr) → UInt32 → UInt32 × R
  dequeueBurst : R → (table : List Ptr) → UInt32 → UInt32 × List Ptr × R
  enqueued : ∀ r p, 0 < space r → (enqueue r p).1 = 0 ∧
    content (enqueue r p).2 = content r ++ [p] ∧ space (enqueue r p).2 + 1 = space r
  enqueueFull : ∀ r p, space r = 0 → (enqueue r p).1 ≠ 0 ∧ (enqueue r p).2 = r
  dequeued : ∀ r place oldest rest, content r = oldest :: rest → (dequeue r place).1 = 0 ∧
    (dequeue r place).2.1 = oldest ∧ content (dequeue r place).2.2 = rest ∧
    space (dequeue r place).2.2 = space r + 1
  dequeueEmpty : ∀ r place, content r = [] → (dequeue r place).1 ≠ 0 ∧ (dequeue r place).2 = (place, r)
  bulkEnqueued : ∀ r table n, n.toNat ≤ table.length → n.toNat ≤ space r →
    (enqueueBulk r table n).1 = n ∧ content (enqueueBulk r table n).2 = content r ++ table.take n.toNat ∧
    space (enqueueBulk r table n).2 + n.toNat = space r
  bulkFull : ∀ r table n, space r < n.toNat → enqueueBulk r table n = (0, r)
  burstDequeued : ∀ r table n, n.toNat ≤ table.length →
    (dequeueBurst r table n).1.toNat = min n.toNat (content r).length ∧
    (dequeueBurst r table n).2.1 = (content r).take n.toNat ++ table.drop (min n.toNat (content r).length) ∧
    content (dequeueBurst r table n).2.2 = (content r).drop n.toNat ∧
    space (dequeueBurst r table n).2.2 = space r + min n.toNat (content r).length

def listRing (Ptr : Type) (capacity : Nat) : RteRing { items : List Ptr // items.length ≤ capacity } Ptr where
  content r := r.val
  space r := capacity - r.val.length
  enqueue r p := if room : r.val.length < capacity then (0, ⟨r.val ++ [p], by simp; omega⟩) else (-105, r)
  dequeue r place := match r with
    | ⟨[], bounded⟩ => (-2, place, ⟨[], bounded⟩)
    | ⟨oldest :: rest, bounded⟩ => (0, oldest, ⟨rest, Nat.le_of_succ_le bounded⟩)
  enqueueBulk r table n :=
    if room : r.val.length + n.toNat ≤ capacity then
      (n, ⟨r.val ++ table.take n.toNat, by simp; omega⟩)
    else (0, r)
  dequeueBurst r table n :=
    (UInt32.ofNat (min n.toNat r.val.length),
      r.val.take n.toNat ++ table.drop (min n.toNat r.val.length),
      ⟨r.val.drop n.toNat, by have := r.property; simp; omega⟩)
  enqueued r p room := by
    have more : r.val.length < capacity := by omega
    simp only [dif_pos more, List.length_append, List.length_singleton]
    exact ⟨trivial, trivial, by omega⟩
  enqueueFull r p full := by
    have last : ¬ r.val.length < capacity := by omega
    simp [dif_neg last]
  dequeued r place oldest rest found := by
    obtain ⟨items, bounded⟩ := r
    cases found
    simp only [List.length_cons] at bounded ⊢
    exact ⟨trivial, trivial, trivial, by omega⟩
  dequeueEmpty r place none := by
    obtain ⟨items, bounded⟩ := r
    cases none
    exact ⟨show (-2 : Int32) ≠ 0 by decide, rfl⟩
  bulkEnqueued r table n given room := by
    have bounded := r.property
    have more : r.val.length + n.toNat ≤ capacity := by omega
    simp only [dif_pos more, List.length_append, List.length_take]
    exact ⟨trivial, trivial, by omega⟩
  bulkFull r table n full := by
    have last : ¬ r.val.length + n.toNat ≤ capacity := by omega
    simp only [dif_neg last]
  burstDequeued r table n given := by
    have bounded := r.property
    have small := n.toNat_lt
    simp only [UInt32.toNat_ofNat', List.length_drop]
    exact ⟨Nat.mod_eq_of_lt (by omega), trivial, trivial, by omega⟩

variable {R Ptr : Type} (api : RteRing R Ptr)

structure Handover (R Ptr : Type) where
  ret : UInt64
  ring : R
  pkts : List Ptr
  freed : List Ptr

/- The loop drains `pkts` into `ptrs` before the length of `pkts` is taken. -/
def enqueueBulk (ring : R) (pkts : List Ptr) : Handover R Ptr :=
  let ptrs := pkts
  let pkts := pkts.drop pkts.length
  let r := api.enqueueBulk ring ptrs (UInt32.ofNat pkts.length)
  ⟨r.1.toUInt64, r.2, pkts, []⟩

/- The pointers of `pkts` are copied, and the copy is what the ring stores into. -/
def dequeueBurst (ring : R) (pkts : List Ptr) (_rxBurstMax : Nat) : Handover R Ptr :=
  let ptrs := pkts
  let r := api.dequeueBurst ring ptrs (UInt32.ofNat ptrs.length)
  ⟨r.1.toUInt64, r.2.2, pkts, []⟩

structure Transferred (ring : R) (pkts : List Ptr) (out : Handover R Ptr) : Prop where
  whole : pkts.length ≤ api.space ring →
    out.ret.toNat = pkts.length ∧ api.content out.ring = api.content ring ++ pkts ∧ out.pkts = []
  back : api.space ring < pkts.length →
    out.ret = 0 ∧ out.ring = ring ∧ ∀ m ∈ pkts, m ∈ out.pkts ∨ m ∈ out.freed

theorem enqueueBulkDrains (ring : R) (pkts : List Ptr) :
    (enqueueBulk api ring pkts).ret = 0 ∧
      api.content (enqueueBulk api ring pkts).ring = api.content ring ∧
      (enqueueBulk api ring pkts).pkts = [] ∧ (enqueueBulk api ring pkts).freed = [] := by
  obtain ⟨ret, content, _⟩ := api.bulkEnqueued ring pkts 0 (Nat.zero_le _) (Nat.zero_le _)
  simp only [enqueueBulk, List.drop_length, List.length_nil]
  refine ⟨?_, ?_, trivial, trivial⟩
  · rw [show UInt32.ofNat 0 = 0 from rfl, ret]
    rfl
  · rw [show UInt32.ofNat 0 = 0 from rfl, content]
    simp

theorem bulkTransfersIffEmpty (ring : R) (pkts : List Ptr) :
    Transferred api ring pkts (enqueueBulk api ring pkts) ↔ pkts = [] := by
  obtain ⟨ret, content, left, freed⟩ := enqueueBulkDrains api ring pkts
  constructor
  · intro transferred
    rcases Nat.lt_or_ge (api.space ring) pkts.length with full | room
    · obtain ⟨_, _, kept⟩ := transferred.back full
      rw [left, freed] at kept
      apply List.eq_nil_iff_forall_not_mem.mpr
      intro m member
      rcases kept m member with inPkts | inPool <;> contradiction
    · obtain ⟨sent, _⟩ := transferred.whole room
      rw [ret] at sent
      exact List.eq_nil_of_length_eq_zero sent.symm
  · intro empty
    constructor
    · intro _
      exact ⟨by rw [ret, empty]; rfl, by rw [content, empty, List.append_nil], left⟩
    · intro full
      rw [empty] at full
      exact absurd full (Nat.not_lt_zero _)

theorem bulkTransfersIffEmptyAtTwo :
    Transferred (listRing Nat 511) ⟨[7, 8], by decide⟩ [] (enqueueBulk (listRing Nat 511) ⟨[7, 8], by decide⟩ []) ∧
      ¬ Transferred (listRing Nat 511) ⟨[7, 8], by decide⟩ [9]
        (enqueueBulk (listRing Nat 511) ⟨[7, 8], by decide⟩ [9]) :=
  ⟨(bulkTransfersIffEmpty (listRing Nat 511) ⟨[7, 8], by decide⟩ []).mpr rfl,
    fun sent => by cases (bulkTransfersIffEmpty (listRing Nat 511) ⟨[7, 8], by decide⟩ [9]).mp sent⟩

theorem bulkOfOneLost :
    ¬ Transferred (listRing Nat 511) ⟨[], by decide⟩ [7]
      (enqueueBulk (listRing Nat 511) ⟨[], by decide⟩ [7]) := by
  intro transferred
  obtain ⟨sent, _⟩ := transferred.whole (by decide)
  exact absurd sent (by decide)

def preallocate : Nat → List Ptr → List Ptr × List Ptr
  | 0, pool => ([], pool)
  | _ + 1, [] => ([], [])
  | len + 1, m :: pool => (m :: (preallocate len pool).1, (preallocate len pool).2)

theorem preallocateSplits (len : Nat) (pool : List Ptr) :
    (preallocate len pool).1 ++ (preallocate len pool).2 = pool := by
  induction len generalizing pool with
  | zero => rfl
  | succ len ih =>
    cases pool with
    | nil => rfl
    | cons m pool => rw [preallocate, List.cons_append, ih pool]

/- The mux fills a vector of capacity `len` with fresh buffers as far as the pool allows;
`xmit_pkts` leaves one of that capacity empty. -/
inductive Caller where
  | mux
  | engine
  deriving DecidableEq, Repr

def Caller.prepare (caller : Caller) (len : Nat) (pool : List Ptr) : List Ptr × List Ptr :=
  match caller with
  | .mux => preallocate len pool
  | .engine => ([], pool)

def Caller.places (caller : Caller) (len : Nat) (pool : List Ptr) : Nat :=
  match caller with
  | .mux => (preallocate len pool).1.length
  | .engine => len

theorem prepareSplits (caller : Caller) (len : Nat) (pool : List Ptr) :
    (caller.prepare len pool).1 ++ (caller.prepare len pool).2 = pool := by
  cases caller with
  | mux => exact preallocateSplits len pool
  | engine => rfl

def receive (caller : Caller) (ring : R) (len : Nat) (pool : List Ptr) : Handover R Ptr :=
  dequeueBurst api ring (caller.prepare len pool).1 len

structure HandedOver [DecidableEq Ptr] (ring : R) (places : Nat) (pkts pool : List Ptr) (out : Handover R Ptr) :
    Prop where
  ret : out.ret.toNat = min places (api.content ring).length
  first : out.pkts.take out.ret.toNat = (api.content ring).take out.ret.toNat
  rest : api.content out.ring = (api.content ring).drop out.ret.toNat
  owned : ∀ m ∈ api.content ring ++ pkts, (api.content out.ring ++ out.pkts ++ (pool ++ out.freed)).count m = 1

theorem dequeueBurstTakes (ring : R) (pkts : List Ptr) (len : Nat) :
    (dequeueBurst api ring pkts len).ret.toNat = min (pkts.length % 2 ^ 32) (api.content ring).length ∧
      api.content (dequeueBurst api ring pkts len).ring =
        (api.content ring).drop (pkts.length % 2 ^ 32) ∧
      (dequeueBurst api ring pkts len).pkts = pkts ∧ (dequeueBurst api ring pkts len).freed = [] := by
  have asked : (UInt32.ofNat pkts.length).toNat = pkts.length % 2 ^ 32 := UInt32.toNat_ofNat'
  obtain ⟨ret, _, content, _⟩ := api.burstDequeued ring pkts (UInt32.ofNat pkts.length)
    (by rw [asked]; exact Nat.mod_le _ _)
  rw [asked] at ret content
  exact ⟨ret, content, rfl, rfl⟩

theorem handedOverNothing [DecidableEq Ptr] {ring : R} {len places : Nat} {pkts pool : List Ptr}
    (distinct : (api.content ring ++ (pkts ++ pool)).Nodup)
    (nothing : min places (api.content ring).length = 0)
    (none : min (pkts.length % 2 ^ 32) (api.content ring).length = 0) :
    HandedOver api ring places pkts pool (dequeueBurst api ring pkts len) := by
  obtain ⟨ret, content, kept, freed⟩ := dequeueBurstTakes api ring pkts len
  rw [none] at ret
  have same : api.content (dequeueBurst api ring pkts len).ring = api.content ring := by
    rw [content]
    rcases Nat.min_eq_zero_iff.mp none with zero | empty
    · rw [zero, List.drop_zero]
    · rw [List.eq_nil_of_length_eq_zero empty, List.drop_nil]
  constructor
  · rw [ret, nothing]
  · rw [ret, List.take_zero, List.take_zero]
  · rw [ret, same, List.drop_zero]
  · intro m member
    rw [same, kept, freed, List.append_nil, List.append_assoc]
    apply List.count_eq_one_of_mem distinct
    rcases List.mem_append.mp member with inRing | inPkts
    · exact List.mem_append_left _ inRing
    · exact List.mem_append_right _ (List.mem_append_left _ inPkts)

/- With a place and a packet there is something to hand over. The engine's vector asks for
nothing; the mux's keeps its own buffer in front, which was not in the ring. -/
theorem burstNotHandedOver [DecidableEq Ptr] {caller : Caller} {ring : R} {len : Nat} {pool : List Ptr}
    (distinct : (api.content ring ++ pool).Nodup) (places : 0 < caller.places len pool)
    (some : api.content ring ≠ []) :
    ¬ HandedOver api ring (caller.places len pool) (caller.prepare len pool).1 (caller.prepare len pool).2
      (receive api caller ring len pool) := by
  intro handed
  have count : 0 < (api.content ring).length := List.length_pos_of_ne_nil some
  obtain ⟨_, _, kept, _⟩ := dequeueBurstTakes api ring (caller.prepare len pool).1 len
  have positive : 0 < (receive api caller ring len pool).ret.toNat := by
    rw [handed.ret]
    omega
  have first := handed.first
  obtain ⟨k, more⟩ := Nat.exists_eq_succ_of_ne_zero (Nat.pos_iff_ne_zero.mp positive)
  obtain ⟨oldest, rest, found⟩ := List.exists_cons_of_ne_nil some
  rw [more, found] at first
  cases own : (caller.prepare len pool).1 with
  | nil =>
    rw [receive, kept, own] at first
    cases first
  | cons m others =>
    rw [receive, kept, own, List.take_succ_cons, List.take_succ_cons] at first
    have split := prepareSplits caller len pool
    rw [own] at split
    rw [found, ← split] at distinct
    have same : m = oldest := (List.cons.inj first).1
    exact List.disjoint_of_nodup_append distinct (List.mem_cons_self) (by simp [same])

theorem burstHandsOverIffNothing [DecidableEq Ptr] (caller : Caller) (ring : R) (len : Nat) (pool : List Ptr)
    (distinct : (api.content ring ++ pool).Nodup) :
    HandedOver api ring (caller.places len pool) (caller.prepare len pool).1 (caller.prepare len pool).2
        (receive api caller ring len pool) ↔
      caller.places len pool = 0 ∨ api.content ring = [] := by
  constructor
  · intro handed
    by_contra something
    obtain ⟨places, some⟩ := not_or.mp something
    exact burstNotHandedOver api distinct (Nat.pos_of_ne_zero places) some handed
  · intro nothing
    apply handedOverNothing
    · rw [prepareSplits]
      exact distinct
    · rcases nothing with places | empty
      · rw [places, Nat.zero_min]
      · rw [empty, List.length_nil, Nat.min_zero]
    · rcases nothing with places | empty
      · have none : (caller.prepare len pool).1.length = 0 := by
          cases caller with
          | mux => exact places
          | engine => rfl
        rw [none, Nat.zero_mod, Nat.zero_min]
      · rw [empty, List.length_nil, Nat.min_zero]

theorem burstHandsOverIffNothingAtEmptyRing :
    HandedOver (listRing Nat 511) ⟨[], by decide⟩ 1 [4] [5]
      (receive (listRing Nat 511) .mux ⟨[], by decide⟩ 1 [4, 5]) :=
  (burstHandsOverIffNothing (listRing Nat 511) .mux ⟨[], by decide⟩ 1 [4, 5] (by decide)).mpr (.inr rfl)

theorem burstLosesPacket :
    ¬ HandedOver (listRing Nat 511) ⟨[7], by decide⟩ 1 [4] [5]
      (receive (listRing Nat 511) .mux ⟨[7], by decide⟩ 1 [4, 5]) := by
  intro handed
  exact absurd (handed.owned 7 (by decide)) (by decide)

end Vdp.Ring
