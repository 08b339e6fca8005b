import Vdp.MemEnpsfDevice

/-! The slots one `MemEnpsf` reaches against the length of its mapping. `ftruncate` and
`mmap` are given `cap`, a number of bytes, while both queues are laid out for `cap` slots
of `MTU` bytes; so a run stays inside only while it uses few slots of the first queue. -/
namespace Vdp.Memenpsf
open Lib.Slots IpcQueue
open Lib.Run (run runTotal)

def mappedLen (cap : UInt64) : Nat := cap.toNat

def AllInside (cap : UInt64) (region : Int) (events : List Event) : Prop :=
  ∀ ev ∈ events, ∀ p ∈ ev.accesses, region ≤ p ∧ p + mtu ≤ region + mappedLen cap

def SlotFits (cap : UInt64) (side : Side) (k : Nat) : Prop :=
  0 ≤ queueOffset cap side + k * mtu ∧ queueOffset cap side + (k + 1) * mtu ≤ mappedLen cap

def xmits (side : Side) (calls : List Call) : Nat := ((callsOn side calls).map Lib.Fifo.pushCount).sum

/- A queue fills its slots from number 1 on, one for each transmit. -/
def SlotsFit (cap : UInt64) (calls : List Call) : Prop :=
  ∀ side k, 1 ≤ k → k ≤ xmits side calls → k < slotCount cap → SlotFits cap side k

theorem xmitsSame {side : Side} {c : Call} (same : c.side = side) (calls : List Call) :
    xmits side (calls ++ [c]) = xmits side calls + Lib.Fifo.pushCount c.op := by
  simp [xmits, callsOnSame same]

theorem xmitsOther {side : Side} {c : Call} (different : c.side ≠ side) (calls : List Call) :
    xmits side (calls ++ [c]) = xmits side calls := by
  simp [xmits, callsOnOther different]

structure Reached (cap : UInt64) (region : Int) (done : List Call) (past : List Event) (side : Side)
    (count : Lib.Fifo.Tally) : Prop where
  places : ∀ p, (∃ ev ∈ past, ev.call.side = side ∧ p ∈ ev.accesses) ↔
    ∃ k, (1 ≤ k ∧ k ≤ count.stored) ∧ p = slots.addr (region + queueOffset cap side) (k % slotCount cap : Nat)
  most : count.stored ≤ xmits side done
  all : count.stored = xmits side done ∨ slotCount cap - 1 ≤ count.stored
  none : slotCount cap = 1 → count.stored = 0

theorem reachedOther {cap region done past side count c ev}
    (h : Reached cap region done past side count) (called : ev.call = c) (different : c.side ≠ side) :
    Reached cap region (done ++ [c]) (past ++ [ev]) side count where
  places p := by
    rw [← h.places p]
    have away : ev.call.side ≠ side := by rw [called]; exact different
    simp only [List.mem_append, List.mem_singleton, or_and_right, exists_or, exists_eq_left, away, false_and, or_false]
  most := by rw [xmitsOther different]; exact h.most
  all := by rw [xmitsOther different]; exact h.all
  none := h.none

theorem reachedSame {cap region done past side} {count : Lib.Fifo.Tally} {c ev}
    (h : Reached cap region done past side count) (order : count.taken ≤ count.stored)
    (called : ev.call = c) (same : c.side = side)
    (accessed : ev.accesses = (Lib.Fifo.visited (slotCount cap - 1) count c.op).map
      (fun k => slots.addr (region + queueOffset cap side) (k % slotCount cap : Nat))) :
    Reached cap region (done ++ [c]) (past ++ [ev]) side
      (Lib.Fifo.tally (slotCount cap - 1) count c.op) where
  places p := by
    have here : ev.call.side = side := by rw [called]; exact same
    have old := h.places p
    constructor
    · rintro ⟨x, member, mine, access⟩
      rcases List.mem_append.mp member with before | now
      · obtain ⟨k, range, place⟩ := old.mp ⟨x, before, mine, access⟩
        exact ⟨k, (Lib.Fifo.visitedStored count c.op k).mp (.inr range), place⟩
      · rw [List.mem_singleton.mp now, accessed] at access
        obtain ⟨k, visits, place⟩ := List.mem_map.mp access
        exact ⟨k, (Lib.Fifo.visitedStored count c.op k).mp (.inl visits), place.symm⟩
    · rintro ⟨k, range, place⟩
      rcases (Lib.Fifo.visitedStored count c.op k).mpr range with visits | before
      · refine ⟨ev, by simp, here, ?_⟩
        rw [accessed, place]
        exact List.mem_map.mpr ⟨k, visits, rfl⟩
      · obtain ⟨x, member, mine, access⟩ := old.mpr ⟨k, before, place⟩
        exact ⟨x, List.mem_append_left _ member, mine, access⟩
  most := by
    have least := Lib.Fifo.storedLe (slotCount cap - 1) count c.op
    rw [xmitsSame same]
    exact least.trans (Nat.add_le_add_right h.most _)
  all := by
    rw [xmitsSame same]
    rcases Lib.Fifo.storedAll (slotCount cap - 1) count c.op with every | full
    · rcases h.all with before | before
      · exact .inl (every.trans (by rw [before]))
      · exact .inr (every ▸ Nat.le_add_right_of_le before)
    · exact .inr full
  none one := by
    rw [one]
    exact Lib.Fifo.storedNone order (h.none one) c.op

theorem reachedNone (cap : UInt64) (region : Int) (side : Side) : Reached cap region [] [] side ⟨0, 0⟩ where
  places p := by
    constructor
    · rintro ⟨ev, member, _⟩
      cases member
    · rintro ⟨k, ⟨low, high⟩, _⟩
      exact absurd (low.trans high) (by simp)
  most := Nat.le_refl 0
  all := .inl rfl
  none _ := rfl

def ReachedAll (cap : UInt64) (region : Int) (done : List Call) (past : List Event) (s : Device) : Prop :=
  ∃ t, Tallied (fun side => region + queueOffset cap side) (slotCount cap) s t ∧
    ∀ side, Reached cap region done past side (t side)

theorem reachedStep {cap region done past s} (h : ReachedAll cap region done past s) (c : Call) :
    ∃ ev u, serve s c = some (ev, u) ∧ ReachedAll cap region (done ++ [c]) (past ++ [ev]) u := by
  obtain ⟨t, tallied, reached⟩ := h
  obtain ⟨ev, u, served, called, _, _, accessed, _, next⟩ := talliedStep tallied c
  refine ⟨ev, u, served, _, next, ?_⟩
  intro side
  by_cases same : c.side = side
  · subst same
    rw [tallyCall, Function.update_self]
    exact reachedSame (reached _) (tallied.counted _).order called rfl accessed
  · rw [tallyCall, Function.update_of_ne (Ne.symm same)]
    exact reachedOther (reached side) called same

theorem reachedRun (name : String) {cap : UInt64} (region : Int) (shm : Shm) (nonzero : cap ≠ 0) (calls : List Call) :
    ∃ events s, run serve ⟨MemEnpsf.new name cap region, shm⟩ calls = some (events, s) ∧
      ReachedAll cap region calls events s :=
  runTotal (ReachedAll cap region) (fun c h => reachedStep h c)
    ⟨_, talliedNew name region shm nonzero, reachedNone cap region⟩ calls

/- Were slot 0 in front of the mapping, its last slot would end at a multiple of `2^64`, or
behind `cap` slots. -/
theorem firstSlotFits {cap : UInt64} {side : Side} (two : 2 ≤ slotCount cap)
    (others : ∀ k, 1 ≤ k → k < slotCount cap → SlotFits cap side k) : SlotFits cap side 0 := by
  have second := others 1 (Nat.le_refl 1) (by omega)
  have last := others (slotCount cap - 1) (by omega) (by omega)
  cases side with
  | s2c =>
    simp only [SlotFits, queueOffset, mappedLen, mtu] at *
    omega
  | c2s =>
    have bound := cap.toNat_lt
    have product := productNat cap
    have offset := Lib.Words.toIntWraps (cap * UInt64.ofNat mtu)
    have signed := Lib.Words.toIntWraps cap
    simp only [SlotFits, queueOffset, mappedLen, slotCount, mtu] at *
    omega

theorem slotsFitAll {cap : UInt64} {calls : List Call} (fit : SlotsFit cap calls) {side : Side} {k : Nat}
    (two : 2 ≤ slotCount cap) (low : 1 ≤ k) (high : k ≤ xmits side calls) :
    SlotFits cap side (k % slotCount cap) := by
  rcases Nat.lt_or_ge k (slotCount cap) with inside | wraps
  · rw [Nat.mod_eq_of_lt inside]
    exact fit side k low high inside
  · have others : ∀ i, 1 ≤ i → i < slotCount cap → SlotFits cap side i := by
      intro i first last
      exact fit side i first (by omega) last
    rcases Nat.eq_zero_or_pos (k % slotCount cap) with zero | positive
    · rw [zero]
      exact firstSlotFits two others
    · exact others _ positive (Nat.mod_lt _ (by omega))

theorem accessInsideIff (cap : UInt64) (region : Int) (side : Side) (k : Nat) :
    (region ≤ slots.addr (region + queueOffset cap side) k ∧
      slots.addr (region + queueOffset cap side) k + mtu ≤ region + mappedLen cap) ↔ SlotFits cap side k := by
  simp only [SlotMemory.addr, SlotFits, show slots.size = mtu from rfl, mtu]
  omega

def FewTransmits (cap : UInt64) (calls : List Call) : Prop :=
  xmits .c2s calls = 0 ∧ (xmits .s2c calls = 0 ∨ (xmits .s2c calls + 1) * mtu ≤ mappedLen cap)

theorem slotsFitUsual {cap : UInt64} (two : 2 ≤ cap.toNat) (fits : 2 * cap.toNat * mtu < 2 ^ 63) (calls : List Call) :
    SlotsFit cap calls ↔ FewTransmits cap calls := by
  have below : cap.toNat * mtu < 2 ^ 63 := by rw [Nat.mul_assoc] at fits; omega
  have offset := offsetExact below
  have signed := Lib.Words.toIntWraps cap
  constructor
  · intro fit
    have first := fit .c2s 1 (Nat.le_refl 1)
    have last := fit .s2c (min (xmits .s2c calls) (cap.toNat - 1))
    rw [SlotFits, offset] at first
    simp only [SlotFits, queueOffset, mappedLen, slotCount, mtu] at first last below
    simp only [FewTransmits, mappedLen, mtu]
    omega
  · rintro ⟨none, few⟩ side k low high _
    cases side with
    | s2c =>
      simp only [SlotFits, queueOffset, mappedLen, mtu] at few ⊢
      omega
    | c2s => omega

theorem accessesInsideIffSlotsFit (name : String) (cap : UInt64) (region : Int) (shm : Shm)
    (atLeast : 1 ≤ cap.toNat) (calls : List Call) :
    ∃ events s, run serve ⟨MemEnpsf.new name cap region, shm⟩ calls = some (events, s) ∧
      (AllInside cap region events ↔ SlotsFit cap calls) ∧
      (2 ≤ cap.toNat → 2 * cap.toNat * mtu < 2 ^ 63 →
        (AllInside cap region events ↔ FewTransmits cap calls)) := by
  have nonzero : cap ≠ 0 := Lib.Words.nonzeroOfPositive atLeast
  have positive : 0 < slotCount cap := sizeNewPositive 0 nonzero
  obtain ⟨events, s, ran, t, _, reached⟩ := reachedRun name region shm nonzero calls
  have exactly : AllInside cap region events ↔ SlotsFit cap calls := by
    constructor
    · intro inside side k low high below
      obtain ⟨places, _, all, _⟩ := reached side
      have stored : k ≤ (t side).stored := by
        rcases all with every | full <;> omega
      obtain ⟨ev, member, _, access⟩ := (places _).mpr ⟨k, ⟨low, stored⟩, rfl⟩
      have fits := (accessInsideIff cap region side _).mp (inside ev member _ access)
      rwa [Nat.mod_eq_of_lt below] at fits
    · intro fit ev member p access
      obtain ⟨places, most, _, none⟩ := reached ev.call.side
      obtain ⟨k, ⟨low, high⟩, rfl⟩ := (places p).mp ⟨ev, member, rfl, access⟩
      have two : 2 ≤ slotCount cap := by
        by_contra one
        have empty := none (by omega)
        omega
      exact (accessInsideIff cap region _ _).mpr (slotsFitAll fit two low (high.trans most))
  exact ⟨events, s, ran, exactly, fun two fits => exactly.trans (slotsFitUsual two fits calls)⟩

def oneSlot : List Call := [.xmit .s2c (Vector.replicate mtu 1), .recv .s2c, .recv .s2c]

theorem accessesInsideIffSlotsFitAtOne :
    ∃ events s, run serve ⟨MemEnpsf.new "mux" 3072 0, fun _ => 0⟩ oneSlot = some (events, s) ∧
      events.map Event.accesses = [[1536], [1536], []] ∧ AllInside 3072 0 events := by
  obtain ⟨events, s, ran, _, usual⟩ := accessesInsideIffSlotsFit "mux" 3072 0 (fun _ => 0) (by decide) oneSlot
  refine ⟨events, s, ran, ?_, (usual (by decide) (by decide)).mpr ⟨by decide, .inr (by decide)⟩⟩
  cases Option.some.inj ran
  rfl

theorem firstTransmitOutside :
    ∃ events s, run serve ⟨MemEnpsf.new "mux" 20 0, fun _ => 0⟩ [.xmit .s2c (Vector.replicate mtu 1)] =
        some (events, s) ∧ ¬ AllInside 20 0 events := by
  refine ⟨_, _, rfl, ?_⟩
  intro inside
  have access := inside _ (List.mem_singleton.mpr rfl) 1536 (List.mem_singleton.mpr rfl)
  exact absurd access.2 (by decide)

end Vdp.Memenpsf
