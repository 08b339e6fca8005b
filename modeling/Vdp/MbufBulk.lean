import Vdp.FreeBulk
import Vdp.Lib.Custody
import Vdp.Mux

/-! All that takes buffers out of one pool and gives them back: `new`, `from_bytes` and
`alloc_bulk`, and the drop of an `Mbuf`, `free_bulk` and `into_ptr`. The borrow checker knows who
owns a buffer, so a call with another one is no step. -/
namespace Vdp.MbufBulk
open Lib
open Lib.Run (run)
open Lib.Custody (Keeps Leads Hands among amongIn)
open Mbuf (RteMempool fromBytesIn)

/- The bulk allocation of the pool library gives all the buffers it was asked for, or none. -/
structure BulkMempool (P Ptr : Type) extends RteMempool P Ptr where
  pktmbufAllocBulk : P → UInt32 → Option (List Ptr × P)
  bulkAllocated : ∀ p n ms q, pktmbufAllocBulk p n = some (ms, q) → ms.length = n.toNat ∧ ms.Nodup ∧
    (∀ m ∈ ms, m ∈ available p) ∧ available q = available p \ {m | m ∈ ms}

def listBulk (Ptr : Type) [DecidableEq Ptr] : BulkMempool (List Ptr) Ptr where
  toRteMempool := Mbuf.listMempool Ptr
  pktmbufAllocBulk p n :=
    if n.toNat ≤ p.dedup.length then some (p.dedup.take n.toNat, p.dedup.drop n.toNat) else none
  bulkAllocated p n ms q found := by
    split at found <;> try contradiction
    rename_i enough
    cases found
    have split := List.take_append_drop n.toNat p.dedup
    have once := List.nodup_dedup p
    refine ⟨by rw [List.length_take]; omega, once.sublist (List.take_sublist _ _), ?_, ?_⟩
    · intro m member
      exact List.mem_dedup.mp (List.mem_of_mem_take member)
    · rw [← split] at once
      ext m
      have known : m ∈ p ↔ m ∈ p.dedup.take n.toNat ∨ m ∈ p.dedup.drop n.toNat := by
        rw [← List.mem_dedup, ← List.mem_append, split]
      have apart := List.disjoint_of_nodup_append once (a := m)
      change m ∈ p.dedup.drop n.toNat ↔ m ∈ p ∧ m ∉ p.dedup.take n.toNat
      rw [known]
      constructor
      · exact fun later => ⟨.inr later, fun first => apart first later⟩
      · rintro ⟨first | later, notFirst⟩
        · exact absurd first notFirst
        · exact later

section Code
variable {P Ptr : Type} (pool : BulkMempool P Ptr)

/- The count is cast to 32 bits and the length of the vector is not; `rest` is what its memory
held before. -/
def allocBulk (rest : Nat → Ptr) (len : Nat) (mp : P) : Except Ring.MemoryError (List Ptr) × P :=
  match pool.pktmbufAllocBulk mp (UInt32.ofNat len) with
  | some (ptrs, mp) => (.ok (ptrs ++ (List.range' ptrs.length (len - ptrs.length)).map rest), mp)
  | none => (.error .noBuf, mp)

def putBy (log : Port.Log Ptr Unit) : List Ptr := log.map Prod.fst

def freeBulk (mbufs : List Ptr) (mp : P) : P :=
  Mux.dropAll pool.toRteMempool mp (putBy (FreeBulk.freeBulk (fun _ => ()) mbufs))

structure State (P Ptr : Type) where
  mempool : P
  owned : List Ptr
  forgotten : List Ptr

inductive Call (Ptr : Type) where
  | new
  | fromBytes (slice : Mbuf.ByteSlice)
  | allocBulk (rest : Nat → Ptr) (len : Nat)
  | drop (m : Ptr)
  | freeBulk (mbufs : List Ptr)
  | intoPtr (m : Ptr)

def step [DecidableEq Ptr] (s : State P Ptr) : Call Ptr → Option (Bool × State P Ptr)
  | .new => match pool.pktmbufAlloc s.mempool with
    | some (m, _, mempool) => some (true, { s with mempool, owned := m :: s.owned })
    | none => some (false, s)
  | .fromBytes slice => match fromBytesIn pool.toRteMempool s.mempool slice with
    | (.ok (m, _), mempool) => some (true, { s with mempool, owned := m :: s.owned })
    | (.error _, mempool) => some (false, { s with mempool })
  | .allocBulk rest len => match allocBulk pool rest len s.mempool with
    | (.ok mbufs, mempool) => some (true, { s with mempool, owned := mbufs ++ s.owned })
    | (.error _, mempool) => some (false, { s with mempool })
  | .drop m =>
    if m ∈ s.owned then some (false, { s with mempool := pool.pktmbufFree s.mempool m, owned := s.owned.erase m })
    else none
  | .freeBulk mbufs =>
    if mbufs.Subperm s.owned then
      some (false, { s with
        mempool := freeBulk pool mbufs s.mempool
        owned := s.owned.diff mbufs
        forgotten := s.forgotten ++ mbufs.drop (putBy (FreeBulk.freeBulk (fun _ => ()) mbufs)).length })
    else none
  | .intoPtr m =>
    if m ∈ s.owned then some (false, { s with owned := s.owned.erase m, forgotten := s.forgotten ++ [m] }) else none

end Code

section Bulk
variable {P Ptr : Type} {pool : BulkMempool P Ptr}

theorem freeBulkPuts (mbufs : List Ptr) :
    putBy (FreeBulk.freeBulk (fun _ => ()) mbufs) = mbufs.take (mbufs.length % 2 ^ 32) := by
  cases mbufs with
  | nil => rfl
  | cons m rest =>
    have same : FreeBulk.freeBulk (fun _ : Ptr => ()) (m :: rest) =
        Port.mempoolPutBulk () (m :: rest) (UInt32.ofNat (m :: rest).length) :=
      @FreeBulk.freeLoopSame _ _ _ _ _ [] _ (fun _ _ => rfl)
    rw [same, putBy, Port.mempoolPutBulk, List.map_map, UInt32.toNat_ofNat']
    exact List.map_id _

theorem shortAllocated {mp q : P} {ptrs : List Ptr} {len : Nat}
    (found : pool.pktmbufAllocBulk mp (UInt32.ofNat len) = some (ptrs, q)) (short : len < 2 ^ 32) (rest : Nat → Ptr) :
    allocBulk pool rest len mp = (.ok ptrs, q) ∧ ptrs.length = len := by
  obtain ⟨count, _⟩ := pool.bulkAllocated _ _ _ _ found
  rw [UInt32.toNat_ofNat', Nat.mod_eq_of_lt short] at count
  simp only [allocBulk, found, count, Nat.sub_self, List.range'_zero, List.map_nil, List.append_nil]
  exact ⟨trivial, trivial⟩

def Sound (pool : BulkMempool P Ptr) (mp : P) (len : Nat) (r : Except Ring.MemoryError (List Ptr) × P) : Prop :=
  ∃ ms, r.1 = .ok ms ∧ ms.length = len ∧ ms.Nodup ∧ ∀ m ∈ ms, m ∈ pool.available mp

theorem longUnsound {mp q : P} {ptrs : List Ptr} {len : Nat}
    (found : pool.pktmbufAllocBulk mp (UInt32.ofNat len) = some (ptrs, q)) (long : 2 ^ 32 ≤ len) (x : Ptr) :
    ¬ Sound pool mp len (allocBulk pool (fun _ => x) len mp) := by
  rintro ⟨ms, same, _, once, _⟩
  obtain ⟨count, _⟩ := pool.bulkAllocated _ _ _ _ found
  rw [UInt32.toNat_ofNat'] at count
  simp only [allocBulk, found, Except.ok.injEq] at same
  rw [← same] at once
  have tail := once.of_append_right
  rw [List.map_const', List.length_range'] at tail
  -- what the cast cut off is at least `2 ^ 32` entries
  have many : 2 ^ 32 ≤ len - ptrs.length := by
    rw [count]
    have split := Nat.mod_add_div len (2 ^ 32)
    have some : 1 ≤ len / 2 ^ 32 := Nat.div_pos long (by decide)
    omega
  have few := List.nodup_replicate.mp tail
  omega

theorem freedRestores {mp q : P} {ptrs : List Ptr} {len : Nat}
    (found : pool.pktmbufAllocBulk mp (UInt32.ofNat len) = some (ptrs, q)) (short : len < 2 ^ 32) :
    pool.available (freeBulk pool ptrs q) = pool.available mp := by
  obtain ⟨count, _, free, less⟩ := pool.bulkAllocated _ _ _ _ found
  rw [UInt32.toNat_ofNat', Nat.mod_eq_of_lt short] at count
  have all : ptrs.take (ptrs.length % 2 ^ 32) = ptrs := by
    rw [count, Nat.mod_eq_of_lt short, ← count, List.take_length]
  have part : {m | m ∈ ptrs} ⊆ pool.available mp := free
  rw [freeBulk, Mux.dropAllAvailable, freeBulkPuts, all, less, Set.sdiff_union_of_subset part]

theorem allocBulkSoundIffShort (mp : P) (len : Nat) (ptrs : List Ptr) (q : P) (x : Ptr)
    (found : pool.pktmbufAllocBulk mp (UInt32.ofNat len) = some (ptrs, q)) :
    ((∀ rest, Sound pool mp len (allocBulk pool rest len mp)) ↔ len < 2 ^ 32) ∧
      (len < 2 ^ 32 → ∀ rest ms, (allocBulk pool rest len mp).1 = .ok ms →
        pool.available (freeBulk pool ms (allocBulk pool rest len mp).2) = pool.available mp) := by
  refine ⟨⟨?_, ?_⟩, ?_⟩
  · intro sound
    by_contra long
    exact longUnsound found (Nat.le_of_not_lt long) x (sound _)
  · intro short rest
    obtain ⟨same, count⟩ := shortAllocated found short rest
    obtain ⟨_, once, free, _⟩ := pool.bulkAllocated _ _ _ _ found
    exact ⟨ptrs, by rw [same], count, once, free⟩
  · intro short rest ms got
    rw [(shortAllocated found short rest).1] at got ⊢
    cases got
    exact freedRestores found short

theorem allocBulkSoundIffShortAtTwo :
    ((∀ rest, Sound (listBulk Nat) [4, 5, 6] 2 (allocBulk (listBulk Nat) rest 2 [4, 5, 6])) ↔ 2 < 2 ^ 32) ∧
      (2 < 2 ^ 32 → ∀ rest ms, (allocBulk (listBulk Nat) rest 2 [4, 5, 6]).1 = .ok ms →
        (listBulk Nat).available (freeBulk (listBulk Nat) ms (allocBulk (listBulk Nat) rest 2 [4, 5, 6]).2) =
          (listBulk Nat).available [4, 5, 6]) :=
  allocBulkSoundIffShort [4, 5, 6] 2 [4, 5] [6] 4 (by decide)

end Bulk

section Custody
variable {P Ptr : Type} [DecidableEq Ptr] {pool : BulkMempool P Ptr}

inductive Place where
  | pool
  | owned
  | forgotten
  deriving DecidableEq, Repr

inductive LifeCycle : Place → Place → Prop where
  | take : LifeCycle .pool .owned
  | give : LifeCycle .owned .pool
  | forget : LifeCycle .owned .forgotten

noncomputable def held (free : Set Ptr) (owned forgotten : List Ptr) : Place → Ptr → Nat
  | .pool => among free
  | .owned => fun m => owned.count m
  | .forgotten => fun m => forgotten.count m

theorem takes (free : Set Ptr) (owned forgotten : List Ptr) {mbufs : List Ptr} (once : mbufs.Nodup)
    (inside : ∀ m ∈ mbufs, m ∈ free) :
    Hands LifeCycle (held free owned forgotten) (held (free \ {m | m ∈ mbufs}) (mbufs ++ owned) forgotten) := by
  apply Custody.handsMove .pool .owned mbufs (by decide) .take
  constructor
  · exact Custody.amongTaken once inside
  · intro m
    simp only [held, List.count_append, Nat.add_comm]
  · intro i here there
    cases i <;> first | rfl | contradiction

theorem gives (free : Set Ptr) (forgotten : List Ptr) {owned mbufs : List Ptr} (own : mbufs.Subperm owned) :
    Hands LifeCycle (held free owned forgotten) (held (free ∪ {m | m ∈ mbufs}) (owned.diff mbufs) forgotten) := by
  intro owner keeps
  have ownedOnce := (Custody.listOwned keeps .owned owned (fun _ => rfl)).1
  have once : mbufs.Nodup := by
    rw [List.nodup_iff_count_le_one] at ownedOnce ⊢
    exact fun m => (own.count_le m).trans (ownedOnce m)
  have outside : ∀ m ∈ mbufs, m ∉ free := by
    intro m member inside
    have there : 0 < held free owned forgotten .owned m := List.count_pos_iff.mpr (own.subset member)
    have none : held free owned forgotten .pool m = 0 := Custody.notElsewhere keeps (by decide) there
    rw [held, amongIn inside] at none
    exact absurd none (by decide)
  refine Custody.handsMove .owned .pool mbufs (by decide) .give ⟨?_, ?_, ?_⟩ owner keeps
  · exact Custody.countTaken own
  · exact Custody.amongGiven once outside
  · intro i here there
    cases i <;> first | rfl | contradiction

theorem forgets (free : Set Ptr) (forgotten : List Ptr) {owned mbufs : List Ptr} (own : mbufs.Subperm owned) :
    Hands LifeCycle (held free owned forgotten) (held free (owned.diff mbufs) (forgotten ++ mbufs)) := by
  apply Custody.handsMove .owned .forgotten mbufs (by decide) .forget
  constructor
  · exact Custody.countTaken own
  · exact fun m => List.count_append
  · intro i here there
    cases i <;> first | rfl | contradiction

variable (pool) in
noncomputable def State.held (s : State P Ptr) : Place → Ptr → Nat :=
  MbufBulk.held (pool.available s.mempool) s.owned s.forgotten

def Short : Call Ptr → Prop
  | .allocBulk _ len => len < 2 ^ 32
  | _ => True

theorem oneTaken {s : State P Ptr} {m : Ptr} {mempool : P} (free : m ∈ pool.available s.mempool)
    (less : pool.available mempool = pool.available s.mempool \ {m}) :
    Hands LifeCycle (s.held pool) (State.held pool { s with mempool, owned := m :: s.owned }) := by
  have taken := takes (pool.available s.mempool) s.owned s.forgotten (List.nodup_singleton m) (by simpa using free)
  rw [show {y | y ∈ [m]} = ({m} : Set Ptr) by ext y; simp, ← less] at taken
  exact taken

theorem newHands {s t : State P Ptr} {e : Bool} (ok : step pool s .new = some (e, t)) :
    Hands LifeCycle (s.held pool) (t.held pool) := by
  simp only [step] at ok
  split at ok
  · rename_i m mbuf mempool found
    obtain ⟨free, less⟩ := pool.allocated _ _ _ _ found
    cases ok
    exact oneTaken free less
  · cases ok
    exact Custody.handsRefl rfl

theorem fromBytesHands {s t : State P Ptr} {slice : Mbuf.ByteSlice} {e : Bool}
    (ok : step pool s (.fromBytes slice) = some (e, t)) : Hands LifeCycle (s.held pool) (t.held pool) := by
  simp only [step] at ok
  rcases Mbuf.fromBytesInCases pool.toRteMempool s.mempool slice with
    ⟨m, mbuf, mempool, out, found, _, _, _, stored⟩ | ⟨error, mempool, same, refused, _⟩
  · obtain ⟨free, less⟩ := pool.allocated _ _ _ _ found
    rw [stored] at ok
    cases ok
    exact oneTaken free less
  · rw [refused] at ok
    cases ok
    exact Custody.handsRefl (by simp only [State.held, same])

theorem allocBulkHands {s t : State P Ptr} {rest : Nat → Ptr} {len : Nat} {e : Bool} (short : len < 2 ^ 32)
    (ok : step pool s (.allocBulk rest len) = some (e, t)) : Hands LifeCycle (s.held pool) (t.held pool) := by
  simp only [step] at ok
  cases found : pool.pktmbufAllocBulk s.mempool (UInt32.ofNat len) with
  | none =>
    simp only [allocBulk, found] at ok
    cases ok
    exact Custody.handsRefl rfl
  | some taken =>
    obtain ⟨ptrs, mempool⟩ := taken
    obtain ⟨_, once, free, less⟩ := pool.bulkAllocated _ _ _ _ found
    rw [(shortAllocated found short rest).1] at ok
    cases ok
    simp only [State.held, less]
    exact takes _ _ _ once free

theorem dropHands {s t : State P Ptr} {m : Ptr} {e : Bool} (ok : step pool s (.drop m) = some (e, t)) :
    Hands LifeCycle (s.held pool) (t.held pool) := by
  simp only [step] at ok
  split at ok <;> try contradiction
  rename_i own
  cases ok
  have given := gives (pool.available s.mempool) s.forgotten (List.singleton_subperm_iff.mpr own)
  rw [List.diff_cons, List.diff_nil, show {y | y ∈ [m]} = ({m} : Set Ptr) by ext y; simp, Set.union_singleton,
    ← pool.freed] at given
  exact given

theorem dropSubperm {owned mbufs : List Ptr} (own : mbufs.Subperm owned) (k : Nat) :
    (mbufs.drop k).Subperm (owned.diff (mbufs.take k)) := by
  apply List.subperm_ext_iff.mpr
  intro m _
  have split : mbufs.count m = _ := congrArg (List.count m) (List.take_append_drop k mbufs).symm
  have most := own.count_le m
  rw [split, List.count_append] at most
  rw [List.count_diff]
  omega

theorem freeBulkHands {s t : State P Ptr} {mbufs : List Ptr} {e : Bool}
    (ok : step pool s (.freeBulk mbufs) = some (e, t)) : Hands LifeCycle (s.held pool) (t.held pool) := by
  simp only [step] at ok
  split at ok <;> try contradiction
  rename_i own
  cases ok
  have put : (mbufs.take (mbufs.length % 2 ^ 32)).Subperm s.owned := (List.take_sublist _ _).subperm.trans own
  have count : (putBy (FreeBulk.freeBulk (fun _ => ()) mbufs)).length = mbufs.length % 2 ^ 32 := by
    rw [freeBulkPuts, List.length_take]
    exact Nat.min_eq_left (Nat.mod_le _ _)
  have moved := Custody.handsTrans (gives (pool.available s.mempool) s.forgotten put)
    (forgets _ _ (dropSubperm own (mbufs.length % 2 ^ 32)))
  rw [← List.diff_append, List.take_append_drop] at moved
  simp only [State.held]
  rw [count, freeBulk, Mux.dropAllAvailable, freeBulkPuts]
  exact moved

theorem intoPtrHands {s t : State P Ptr} {m : Ptr} {e : Bool} (ok : step pool s (.intoPtr m) = some (e, t)) :
    Hands LifeCycle (s.held pool) (t.held pool) := by
  simp only [step] at ok
  split at ok <;> try contradiction
  rename_i own
  cases ok
  have forgot := forgets (pool.available s.mempool) s.forgotten (List.singleton_subperm_iff.mpr own)
  rw [List.diff_cons, List.diff_nil] at forgot
  exact forgot

theorem stepHands {s t : State P Ptr} {c : Call Ptr} {e : Bool} (short : Short c)
    (ok : step pool s c = some (e, t)) : Hands LifeCycle (s.held pool) (t.held pool) := by
  cases c with
  | new => exact newHands ok
  | fromBytes slice => exact fromBytesHands ok
  | allocBulk rest len => exact allocBulkHands short ok
  | drop m => exact dropHands ok
  | freeBulk mbufs => exact freeBulkHands ok
  | intoPtr m => exact intoPtrHands ok

theorem runShort {s u : State P Ptr} {calls : List (Call Ptr)} {es : List Bool} (short : ∀ c ∈ calls, Short c)
    (ok : run (step pool) s calls = some (es, u)) : Hands LifeCycle (s.held pool) (u.held pool) := by
  apply And.right (a := True)
  apply Custody.runHands (fun s => State.held pool s) (fun _ => True) Short _ short trivial ok
  exact fun short _ now => ⟨trivial, stepHands short now⟩

variable (pool) in
theorem callsKeepBuffersApart (mempool : P) (calls more : List (Call Ptr)) {es fs : List Bool} {u v : State P Ptr}
    (short : ∀ c ∈ calls ++ more, Short c)
    (ok : run (step pool) ⟨mempool, [], []⟩ calls = some (es, u)) (later : run (step pool) u more = some (fs, v)) :
    ∃ owner next : Ptr → Option Place, (∀ m, owner m = none ↔ m ∉ pool.available mempool) ∧
      Keeps (u.held pool) owner ∧ Keeps (v.held pool) next ∧ Leads LifeCycle owner next := by
  have keeps : Keeps (State.held pool (⟨mempool, [], []⟩ : State P Ptr))
      (Custody.startOwner .pool (pool.available mempool)) := by
    refine Custody.startKeeps (State.held pool ⟨mempool, [], []⟩) rfl ?_
    intro i other m
    cases i <;> first | rfl | contradiction
  have before := runShort (fun c member => short c (List.mem_append_left more member)) ok
  have after := runShort (fun c member => short c (List.mem_append_right calls member)) later
  obtain ⟨owner, all, kept⟩ := Custody.handsStart keeps before
  obtain ⟨next, keptNext, leads⟩ := after owner kept
  exact ⟨owner, next, all, kept, keptNext, leads⟩

def afterThree : State (List Nat) Nat := ⟨[5, 6], [], [4]⟩

theorem callsKeepBuffersApartAtThree :
    ∃ owner next : Nat → Option Place, (∀ m, owner m = none ↔ m ∉ {x | x ∈ [4, 5, 6]}) ∧
      Keeps (afterThree.held (listBulk Nat)) owner ∧
      Keeps (State.held (listBulk Nat) ⟨[6], [5], [4]⟩) next ∧ Leads LifeCycle owner next :=
  @callsKeepBuffersApart _ _ _ (listBulk Nat) [4, 5, 6] [.allocBulk (fun _ => 0) 2, .intoPtr 4, .freeBulk [5]] [.new]
    [true, false, false] [true] afterThree ⟨[6], [5], [4]⟩ (by simp [Short]) rfl rfl

end Custody

end Vdp.MbufBulk
