import Mathlib.Algebra.Group.Nat.Defs
import Mathlib.Data.List.Basic
import Mathlib.Data.List.Nodup

/-! Transmission by the engine: `xmit_pkts`, `Port::send`, `mbuf_free_bulk` and the drop of
an `Mbuf`. A packet is the pointer to its buffer, `pool` is the field of that name, and the
log records each change of holder. The device is any choice of how many it accepts. -/
namespace Vdp.Port

inductive Holder (Pool : Type) where
  | application
  | nic
  | pool (p : Pool)
  deriving DecidableEq, Repr

variable {Ptr Pool : Type}

abbrev Log (Ptr Pool : Type) := List (Ptr × Holder Pool)

/- How many of the offered packets `rte_eth_tx_burst` takes. -/
abbrev Nic := (offered : UInt16) → Fin (offered.toNat + 1)

def txBurst (nic : Nic) (txPkts : List Ptr) (nbPkts : UInt16) : Nat × Log Ptr Pool :=
  let count := (nic nbPkts).val
  (count, (txPkts.take count).map (fun m => (m, .nic)))

def mempoolPutBulk (p : Pool) (objTable : List Ptr) (n : UInt32) : Log Ptr Pool :=
  (objTable.take n.toNat).map (fun m => (m, .pool p))

theorem putBulkNothing (p : Pool) (batch : List Ptr) :
    mempoolPutBulk p batch (UInt32.ofNat batch.length) = [] ↔ batch.length % 2 ^ 32 = 0 := by
  simp only [mempoolPutBulk, List.map_eq_nil_iff, List.take_eq_nil_iff, UInt32.toNat_ofNat']
  constructor
  · intro nothing
    cases nothing with
    | inl zero => exact zero
    | inr empty => simp [empty]
  · exact Or.inl

def pktmbufFree (pool : Ptr → Pool) (m : Ptr) : Log Ptr Pool := [(m, .pool (pool m))]

section Code
variable [DecidableEq Pool]

/- The loop of `mbuf_free_bulk`; `first` is read once, before it. -/
def freeLoop (pool : Ptr → Pool) (first : Pool) : List Ptr → List Ptr → Log Ptr Pool
  | toFree, [] => mempoolPutBulk first toFree (UInt32.ofNat toFree.length)
  | toFree, m :: rest =>
    if first = pool m then freeLoop pool first (toFree ++ [m]) rest
    else mempoolPutBulk first toFree (UInt32.ofNat toFree.length) ++ freeLoop pool first [m] rest

def mbufFreeBulk (pool : Ptr → Pool) : List Ptr → Option (Log Ptr Pool)
  | [] => none
  | m :: rest => some (freeLoop pool (pool m) [] (m :: rest))

def send (pool : Ptr → Pool) (nic : Nic) (pkts : List Ptr) : Option (Nat × Log Ptr Pool) := do
  let len := pkts.length
  let (count, taken) := txBurst nic pkts (UInt16.ofNat pkts.length)
  if count < len then
    let freed ← mbufFreeBulk pool pkts
    pure (count, taken ++ freed)
  else pure (count, taken)

/- The ring writes into a private vector, so `pkts` never grows. -/
def dequeueBurst (ring pkts : List Ptr) : Nat × List Ptr :=
  let count := min pkts.length ring.length
  (count, ring.drop count)

structure Sent (Ptr Pool : Type) where
  num : Nat
  outPkts : List Ptr
  toEngine : List Ptr
  log : Log Ptr Pool

def xmitPkts (pool : Ptr → Pool) (nic : Nic) (capacity : Nat) (outPkts toEngine : List Ptr) :
    Option (Sent Ptr Pool) := do
  let len := capacity - outPkts.length
  let (outPkts, toEngine) :=
    if len > 0 then
      let pkts := []
      let (_, left) := dequeueBurst toEngine pkts
      (outPkts ++ pkts, left)
    else (outPkts, toEngine)
  let (num, log) ← send pool nic outPkts
  let cleared := outPkts.flatMap (pktmbufFree pool)
  pure ⟨num, [], toEngine, log ++ cleared⟩

/- The parts of the list that one `rte_mempool_put_bulk` each gets: it is cut before every
packet of a pool other than the first packet's. -/
def batches (pool : Ptr → Pool) (first : Pool) : List Ptr → List Ptr → List (List Ptr)
  | toFree, [] => [toFree]
  | toFree, m :: rest =>
    if first = pool m then batches pool first (toFree ++ [m]) rest
    else toFree :: batches pool first [m] rest

def bulkBatches (pool : Ptr → Pool) : List Ptr → List (List Ptr)
  | [] => []
  | m :: rest => batches pool (pool m) [] (m :: rest)

theorem freeLoopBatches (pool : Ptr → Pool) (first : Pool) (toFree rest : List Ptr) :
    freeLoop pool first toFree rest = (batches pool first toFree rest).flatMap
      (fun batch => mempoolPutBulk first batch (UInt32.ofNat batch.length)) := by
  induction rest generalizing toFree with
  | nil => simp [freeLoop, batches]
  | cons m rest ih =>
    unfold freeLoop batches
    split
    · exact ih (toFree ++ [m])
    · rw [List.flatMap_cons, ih [m]]

theorem batchesMembers (pool : Ptr → Pool) (first : Pool) (toFree rest : List Ptr) :
    ∀ batch ∈ batches pool first toFree rest, ∀ m ∈ batch, m ∈ toFree ++ rest := by
  induction rest generalizing toFree with
  | nil => simp [batches]
  | cons head rest ih =>
    intro batch member m inside
    unfold batches at member
    split at member
    · simpa using ih (toFree ++ [head]) batch member m inside
    · cases List.mem_cons.mp member with
      | inl same =>
        subst same
        exact List.mem_append_left _ inside
      | inr later =>
        have found := ih [head] batch later m inside
        exact List.mem_append_right _ found

structure Freed (pool : Ptr → Pool) (outPkts : List Ptr) (log : Log Ptr Pool) : Prop where
  members : ∀ e ∈ log, e.1 ∈ outPkts ∧ ∃ p, e.2 = .pool p
  nothing : log = [] ↔ ∀ batch ∈ bulkBatches pool outPkts, batch.length % 2 ^ 32 = 0

theorem mbufFreeBulkFrees (pool : Ptr → Pool) (m : Ptr) (rest : List Ptr) :
    ∃ log, mbufFreeBulk pool (m :: rest) = some log ∧ Freed pool (m :: rest) log := by
  exists freeLoop pool (pool m) [] (m :: rest)
  simp only [mbufFreeBulk, true_and, freeLoopBatches]
  constructor
  · intro e member
    obtain ⟨batch, found, put⟩ := List.mem_flatMap.mp member
    obtain ⟨x, inside, rfl⟩ := List.mem_map.mp put
    have known := batchesMembers pool (pool m) [] (m :: rest) batch found x (List.mem_of_mem_take inside)
    exact ⟨known, pool m, rfl⟩
  · simp only [List.flatMap_eq_nil_iff, putBulkNothing, bulkBatches]

def accepted (nic : Nic) (pkts : List Ptr) : Nat := (nic (UInt16.ofNat pkts.length)).val

theorem sendLog (pool : Ptr → Pool) (nic : Nic) (pkts : List Ptr) :
    ∃ freed, send pool nic pkts = some (accepted nic pkts,
        (pkts.take (accepted nic pkts)).map (fun m => (m, .nic)) ++ freed) ∧
      (accepted nic pkts < pkts.length → Freed pool pkts freed) ∧
      (pkts.length ≤ accepted nic pkts → freed = []) := by
  unfold send txBurst
  simp only [← accepted.eq_def]
  by_cases partly : accepted nic pkts < pkts.length
  · cases pkts with
    | nil => simp at partly
    | cons m rest =>
      obtain ⟨freed, same, frees⟩ := mbufFreeBulkFrees pool m rest
      exact ⟨freed, by simp only [if_pos partly, same]; rfl, fun _ => frees, fun all => by omega⟩
  · exact ⟨[], by simp [partly], fun more => absurd more partly, fun _ => rfl⟩

theorem xmitPktsLog (pool : Ptr → Pool) (nic : Nic) (capacity : Nat) (outPkts toEngine : List Ptr) :
    ∃ freed, xmitPkts pool nic capacity outPkts toEngine =
        some ⟨accepted nic outPkts, [], toEngine,
          (outPkts.take (accepted nic outPkts)).map (fun m => (m, .nic)) ++ freed ++
            outPkts.flatMap (pktmbufFree pool)⟩ ∧
      (accepted nic outPkts < outPkts.length → Freed pool outPkts freed) ∧
      (outPkts.length ≤ accepted nic outPkts → freed = []) := by
  obtain ⟨freed, same, frees⟩ := sendLog pool nic outPkts
  refine ⟨freed, ?_, frees⟩
  by_cases spare : capacity - outPkts.length > 0 <;> simp [xmitPkts, spare, dequeueBurst, same]

end Code

section Ownership
variable [DecidableEq Ptr]

def moves (log : Log Ptr Pool) (m : Ptr) : List (Holder Pool) :=
  (log.filter (fun e => e.1 = m)).map Prod.snd

def holder (log : Log Ptr Pool) (m : Ptr) : Holder Pool := (moves log m).getLastD .application

def returned : Holder Pool → Option Pool
  | .pool p => some p
  | _ => none

def returns (log : Log Ptr Pool) (m : Ptr) : List Pool := (moves log m).filterMap returned

structure TransmitOwnership (pool : Ptr → Pool) (outPkts : List Ptr) (k : Nat) (log : Log Ptr Pool) : Prop where
  accepted : ∀ m ∈ outPkts.take k, holder log m = .nic ∧ returns log m = []
  others : ∀ m ∈ outPkts.drop k, holder log m = .pool (pool m) ∧ returns log m = [pool m]
  once : ∀ m, (returns log m).length ≤ 1

theorem movesCleared (pool : Ptr → Pool) {pkts : List Ptr} (distinct : pkts.Nodup) (m : Ptr) :
    moves (pkts.flatMap (pktmbufFree pool)) m = if m ∈ pkts then [.pool (pool m)] else [] := by
  induction pkts with
  | nil => simp [moves]
  | cons head rest ih =>
    obtain ⟨fresh, others⟩ := List.nodup_cons.mp distinct
    have tail := ih others
    by_cases same : head = m
    · subst same
      simp_all [moves, pktmbufFree]
    · simp_all [moves, pktmbufFree, Ne.symm same]

theorem returnsCleared (pool : Ptr → Pool) {pkts : List Ptr} (distinct : pkts.Nodup) {m : Ptr}
    (member : m ∈ pkts) (before : Log Ptr Pool) :
    returns (before ++ pkts.flatMap (pktmbufFree pool)) m = returns before m ++ [pool m] := by
  have last := movesCleared pool distinct m
  rw [if_pos member] at last
  have split : moves (before ++ pkts.flatMap (pktmbufFree pool)) m = moves before m ++ [.pool (pool m)] := by
    rw [← last]
    simp [moves]
  rw [returns, split, List.filterMap_append]
  rfl

/- Every packet is dropped by the final `clear`, so any earlier holder but the
application breaks the property. -/
theorem clearedOwnership (pool : Ptr → Pool) {outPkts : List Ptr} (distinct : outPkts.Nodup) :
    TransmitOwnership pool outPkts 0 (outPkts.flatMap (pktmbufFree pool)) where
  accepted := by simp
  others m member := by
    have last := movesCleared pool distinct m
    rw [if_pos (List.mem_of_mem_drop member)] at last
    simp [holder, returns, last, returned]
  once m := by
    rw [returns, movesCleared pool distinct m]
    split <;> simp [returned]

theorem ownedOnlyWhenNothingFreed {pool : Ptr → Pool} {outPkts : List Ptr} {k : Nat} {freed : Log Ptr Pool}
    (distinct : outPkts.Nodup) (members : ∀ e ∈ freed, e.1 ∈ outPkts ∧ ∃ p, e.2 = .pool p)
    (owned : TransmitOwnership pool outPkts k ((outPkts.take k).map (fun m => (m, .nic)) ++ freed ++
      outPkts.flatMap (pktmbufFree pool))) : outPkts = [] ∨ (k = 0 ∧ freed = []) := by
  cases outPkts with
  | nil => exact .inl rfl
  | cons m rest =>
    right
    cases k with
    | succ k =>
      have back := (owned.accepted m (by simp)).2
      rw [returnsCleared pool distinct (by simp)] at back
      simp at back
    | zero =>
      cases freed with
      | nil => exact ⟨rfl, rfl⟩
      | cons e more =>
        obtain ⟨known, p, put⟩ := members e (by simp)
        have twice := owned.once e.1
        rw [returnsCleared pool distinct known] at twice
        simp [returns, moves, put, returned] at twice

/- The second alternative is the `u32` cast of a batch length that is a multiple of `2^32`. -/
theorem xmitOwnershipIffNothingHandled [DecidableEq Pool] (pool : Ptr → Pool) (nic : Nic)
    (capacity : Nat) (outPkts toEngine : List Ptr) (distinct : outPkts.Nodup) :
    ∃ sent, xmitPkts pool nic capacity outPkts toEngine = some sent ∧
      (TransmitOwnership pool outPkts (accepted nic outPkts) sent.log ↔
        outPkts = [] ∨ (accepted nic outPkts = 0 ∧
          ∀ batch ∈ bulkBatches pool outPkts, batch.length % 2 ^ 32 = 0)) := by
  obtain ⟨freed, same, partly, fully⟩ := xmitPktsLog pool nic capacity outPkts toEngine
  refine ⟨_, same, ?_⟩
  have quiet : accepted nic outPkts = 0 → freed = [] → TransmitOwnership pool outPkts (accepted nic outPkts)
      ((outPkts.take (accepted nic outPkts)).map (fun m => (m, .nic)) ++ freed ++
        outPkts.flatMap (pktmbufFree pool)) := by
    intro none nothing
    rw [none, nothing]
    exact clearedOwnership pool distinct
  constructor
  · intro owned
    cases Nat.lt_or_ge (accepted nic outPkts) outPkts.length with
    | inl more =>
      have freeing := partly more
      cases ownedOnlyWhenNothingFreed distinct freeing.members owned with
      | inl empty => exact .inl empty
      | inr idle => exact .inr ⟨idle.1, freeing.nothing.mp idle.2⟩
    | inr all =>
      have nothing := fully all
      cases ownedOnlyWhenNothingFreed distinct (by simp [nothing]) owned with
      | inl empty => exact .inl empty
      | inr idle =>
        left
        apply List.eq_nil_of_length_eq_zero
        omega
  · intro idle
    cases idle with
    | inl empty =>
      subst empty
      have none : accepted nic ([] : List Ptr) = 0 := Nat.lt_one_iff.mp (nic 0).isLt
      exact quiet none (fully (Nat.zero_le _))
    | inr idle =>
      obtain ⟨none, cast⟩ := idle
      cases Nat.lt_or_ge (accepted nic outPkts) outPkts.length with
      | inl more => exact quiet none ((partly more).nothing.mpr cast)
      | inr all => exact quiet none (fully all)

theorem xmitOwnershipIffNothingHandledAtTwo :
    ∃ sent, xmitPkts (fun m : Nat => m) (fun n => Fin.last n.toNat) 32 [1, 2] [] = some sent ∧
      (TransmitOwnership (fun m : Nat => m) [1, 2] (accepted (fun n => Fin.last n.toNat) [1, 2]) sent.log ↔
        ([1, 2] : List Nat) = [] ∨ (accepted (fun n => Fin.last n.toNat) [1, 2] = 0 ∧
          ∀ batch ∈ bulkBatches (fun m : Nat => m) [1, 2], batch.length % 2 ^ 32 = 0)) :=
  xmitOwnershipIffNothingHandled _ _ 32 [1, 2] [] (by decide)

theorem acceptedPacketReturned :
    ∃ sent, xmitPkts (fun _ : Nat => 0) (fun n => Fin.last n.toNat) 32 [7] [] = some sent ∧
      accepted (fun n => Fin.last n.toNat) [7] = 1 ∧ sent.log = [(7, .nic), (7, .pool 0)] ∧
      ¬ TransmitOwnership (fun _ : Nat => 0) [7] 1 sent.log :=
  ⟨_, rfl, rfl, rfl, fun owned => absurd (owned.accepted 7 (by decide)).2 (by decide)⟩

end Ownership

end Vdp.Port
