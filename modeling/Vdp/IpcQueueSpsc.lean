import Vdp.IpcQueue

/-! One producer thread in `push` and one consumer thread in `pop` on a shared ring.
Every atomic load, atomic store and slot access is one step in program order, and
the steps of the two threads interleave freely on one sequentially consistent memory.
`write` is published before the slot is written; nothing here hides that order. -/
namespace Vdp.IpcQueue.Spsc
open Lib.Slots Lib.Words
open Lib.Run (run guarded guardedStep runExtend runInvariant runThen)

inductive Producer (T : Type) where
  | idle
  | compare (elem : T) (curInd : Int64)
  | storeWrite (elem : T) (curInd : Int64)
  | writeSlot (elem : T) (curInd : Int64)
  | panicked
  deriving DecidableEq, Repr

inductive Consumer where
  | idle
  | compare (curInd : Int64)
  | storeRead (curInd : Int64)
  | readSlot (curInd : Int64)
  | panicked
  deriving DecidableEq, Repr

structure Sys (M T : Type) where
  ring : RingBuf
  mem : M
  producer : Producer T
  consumer : Consumer

inductive Act (T : Type) where
  | push (elem : T)
  | producer
  | consumer
  deriving DecidableEq, Repr

inductive Event (T : Type) where
  | pushCall (elem : T)
  | pushFull
  | pushRoom
  | publish
  | pushOk (elem : T) (ind : Int64)
  | popCall
  | popEmpty
  | popFound
  | advance
  | popSome (ind : Int64) (value : Slot T)
  | panic
  deriving DecidableEq, Repr

variable {M T : Type}

def start (bs : Int) (cap : UInt64) (m : M) : Sys M T := ⟨RingBuf.new bs cap, m, .idle, .idle⟩

def step (mem : SlotMemory M T) (s : Sys M T) : Act T → Option (Event T × Sys M T)
  | .push elem => match s.producer with
    | .idle => match nextInd s.ring.capacity s.ring.write.toInt64 with
      | some curInd => some (.pushCall elem, { s with producer := .compare elem curInd })
      | none => some (.panic, { s with producer := .panicked })
    | _ => none
  | .producer => match s.producer with
    | .compare elem curInd =>
      if curInd = s.ring.read.toInt64 then some (.pushFull, { s with producer := .idle })
      else some (.pushRoom, { s with producer := .storeWrite elem curInd })
    | .storeWrite elem curInd =>
      some (.publish, { s with
        ring := { s.ring with write := curInd.toUInt64 }, producer := .writeSlot elem curInd })
    | .writeSlot elem curInd =>
      some (.pushOk elem curInd, { s with
        mem := mem.store s.mem (mem.addr s.ring.base curInd.toInt) elem, producer := .idle })
    | _ => none
  | .consumer => match s.consumer with
    | .idle => some (.popCall, { s with consumer := .compare s.ring.read.toInt64 })
    | .compare curInd =>
      if curInd = s.ring.write.toInt64 then some (.popEmpty, { s with consumer := .idle })
      else match nextInd s.ring.capacity curInd with
        | some next => some (.popFound, { s with consumer := .storeRead next })
        | none => some (.panic, { s with consumer := .panicked })
    | .storeRead curInd =>
      some (.advance, { s with
        ring := { s.ring with read := curInd.toUInt64 }, consumer := .readSlot curInd })
    | .readSlot curInd =>
      some (.popSome curInd (mem.load s.mem (mem.addr s.ring.base curInd.toInt)),
        { s with consumer := .idle })
    | .panicked => none

/- What the events of a run say. `accepted` is in call order and has the pushes that
returned Ok or are still in progress: a full report takes its own call back.
`completed` has the pushes that returned Ok with the slot each wrote, `returned` the
values `pop` returned as Some. -/
structure History (T : Type) where
  accepted : List T
  published : Nat
  advanced : Nat
  completed : List (T × Int64)
  returned : List (Slot T)

def History.add (h : History T) : Event T → History T
  | .pushCall elem => { h with accepted := h.accepted ++ [elem] }
  | .pushFull => { h with accepted := h.accepted.dropLast }
  | .publish => { h with published := h.published + 1 }
  | .pushOk elem ind => { h with completed := h.completed ++ [(elem, ind)] }
  | .advance => { h with advanced := h.advanced + 1 }
  | .popSome _ value => { h with returned := h.returned ++ [value] }
  | .pushRoom | .popCall | .popEmpty | .popFound | .panic => h

def history (evs : List (Event T)) : History T := evs.foldl History.add ⟨[], 0, 0, [], []⟩

theorem historySnoc (evs : List (Event T)) (e : Event T) :
    history (evs ++ [e]) = (history evs).add e := by
  simp [history, List.foldl_append]

inductive Took (mem : SlotMemory M T) (s : Sys M T) : Act T → Event T → Sys M T → Prop where
  | pushCall {elem curInd} (pc : s.producer = .idle)
      (next : nextInd s.ring.capacity s.ring.write.toInt64 = some curInd) :
      Took mem s (.push elem) (.pushCall elem) { s with producer := .compare elem curInd }
  | pushPanic {elem} (pc : s.producer = .idle)
      (next : nextInd s.ring.capacity s.ring.write.toInt64 = none) :
      Took mem s (.push elem) .panic { s with producer := .panicked }
  | pushFull {elem curInd} (pc : s.producer = .compare elem curInd)
      (same : curInd = s.ring.read.toInt64) :
      Took mem s .producer .pushFull { s with producer := .idle }
  | pushRoom {elem curInd} (pc : s.producer = .compare elem curInd)
      (different : curInd ≠ s.ring.read.toInt64) :
      Took mem s .producer .pushRoom { s with producer := .storeWrite elem curInd }
  | publish {elem curInd} (pc : s.producer = .storeWrite elem curInd) :
      Took mem s .producer .publish { s with
        ring := { s.ring with write := curInd.toUInt64 }, producer := .writeSlot elem curInd }
  | pushOk {elem curInd} (pc : s.producer = .writeSlot elem curInd) :
      Took mem s .producer (.pushOk elem curInd) { s with
        mem := mem.store s.mem (mem.addr s.ring.base curInd.toInt) elem, producer := .idle }
  | popCall (pc : s.consumer = .idle) :
      Took mem s .consumer .popCall { s with consumer := .compare s.ring.read.toInt64 }
  | popEmpty {curInd} (pc : s.consumer = .compare curInd) (same : curInd = s.ring.write.toInt64) :
      Took mem s .consumer .popEmpty { s with consumer := .idle }
  | popFound {curInd next} (pc : s.consumer = .compare curInd)
      (different : curInd ≠ s.ring.write.toInt64)
      (found : nextInd s.ring.capacity curInd = some next) :
      Took mem s .consumer .popFound { s with consumer := .storeRead next }
  | popPanic {curInd} (pc : s.consumer = .compare curInd)
      (different : curInd ≠ s.ring.write.toInt64) (found : nextInd s.ring.capacity curInd = none) :
      Took mem s .consumer .panic { s with consumer := .panicked }
  | advance {curInd} (pc : s.consumer = .storeRead curInd) :
      Took mem s .consumer .advance { s with
        ring := { s.ring with read := curInd.toUInt64 }, consumer := .readSlot curInd }
  | popSome {curInd} (pc : s.consumer = .readSlot curInd) :
      Took mem s .consumer
        (.popSome curInd (mem.load s.mem (mem.addr s.ring.base curInd.toInt))) { s with consumer := .idle }

theorem stepTook {mem : SlotMemory M T} {s : Sys M T} {a ev t} (ok : step mem s a = some (ev, t)) :
    Took mem s a ev t := by
  cases a with
  | push elem =>
    simp only [step] at ok
    split at ok <;> try contradiction
    rename_i pc
    split at ok <;> (rename_i next; cases Option.some.inj ok)
    · exact .pushCall pc next
    · exact .pushPanic pc next
  | producer =>
    simp only [step] at ok
    split at ok <;> try contradiction
    all_goals rename_i pc
    · split at ok <;> (rename_i guard; cases Option.some.inj ok)
      · exact .pushFull pc guard
      · exact .pushRoom pc guard
    · cases Option.some.inj ok; exact .publish pc
    · cases Option.some.inj ok; exact .pushOk pc
  | consumer =>
    simp only [step] at ok
    split at ok <;> try contradiction
    all_goals rename_i pc
    · cases Option.some.inj ok; exact .popCall pc
    · split at ok
      · rename_i same; cases Option.some.inj ok; exact .popEmpty pc same
      · rename_i different
        split at ok <;> (rename_i found; cases Option.some.inj ok)
        · exact .popFound pc different found
        · exact .popPanic pc different found
    · cases Option.some.inj ok; exact .advance pc
    · cases Option.some.inj ok; exact .popSome pc

theorem pushAlone {mem : SlotMemory M T} {s : Sys M T} {elem fx} (pc : s.producer = .idle)
    (done : push mem s.ring s.mem elem = some fx) :
    ∃ rest evs, (∀ a ∈ rest, a = .producer) ∧
      run (step mem) s (.push elem :: rest) = some (evs, { s with ring := fx.ring, mem := fx.mem }) ∧
      (fx.ret = .error bufFull ↔ .pushFull ∈ evs) := by
  obtain ⟨ring, m, producer, consumer⟩ := s
  cases pc
  simp only [push, bind, Option.bind_eq_some_iff] at done
  obtain ⟨curInd, next, done⟩ := done
  split at done <;> (rename_i guard; cases Option.some.inj done)
  · exact ⟨[.producer], [.pushCall elem, .pushFull], by simp, by simp [run, step, next, guard], by simp⟩
  · exact ⟨[.producer, .producer, .producer],
      [.pushCall elem, .pushRoom, .publish, .pushOk elem curInd], by simp,
      by simp [run, step, next, guard], by simp⟩

theorem popAlone {mem : SlotMemory M T} {s : Sys M T} {fx} (pc : s.consumer = .idle)
    (done : pop mem s.ring s.mem = some fx) :
    ∃ acts evs, (∀ a ∈ acts, a = .consumer) ∧
      run (step mem) s acts = some (evs, { s with ring := fx.ring, mem := fx.mem }) ∧
      ∀ v, fx.ret = some v ↔ ∃ ind, .popSome ind v ∈ evs := by
  obtain ⟨ring, m, producer, consumer⟩ := s
  cases pc
  simp only [pop] at done
  split at done
  · rename_i same
    cases Option.some.inj done
    exact ⟨[.consumer, .consumer], [.popCall, .popEmpty], by simp, by simp [run, step, same], by simp⟩
  · rename_i different
    obtain ⟨curInd, next, done⟩ := Option.bind_eq_some_iff.mp done
    cases Option.some.inj done
    exact ⟨[.consumer, .consumer, .consumer, .consumer],
      [.popCall, .popFound, .advance, .popSome curInd (mem.load m (mem.addr ring.base curInd.toInt))],
      by simp, by simp [run, step, next, different], by simp [eq_comm]⟩

/- Where each thread stands, in terms of the unbounded counters: index `k % n` belongs
to the `k`-th element, counted from 1. -/
def ProducerAt (n : Nat) (h : History T) : Producer T → Prop
  | .idle => h.completed.length = h.published ∧ h.accepted = h.completed.map Prod.fst
  | .compare elem j => h.completed.length = h.published ∧
      h.accepted = h.completed.map Prod.fst ++ [elem] ∧ j.toInt = ((h.published + 1) % n : Nat)
  | .storeWrite elem j => h.completed.length = h.published ∧
      h.accepted = h.completed.map Prod.fst ++ [elem] ∧ j.toInt = ((h.published + 1) % n : Nat) ∧
      h.published + 1 < h.advanced + n
  | .writeSlot elem j => h.completed.length + 1 = h.published ∧
      h.accepted = h.completed.map Prod.fst ++ [elem] ∧ j.toInt = (h.published % n : Nat)
  | .panicked => False

def ConsumerAt (n : Nat) (h : History T) : Consumer → Prop
  | .idle => h.returned.length = h.advanced
  | .compare i => h.returned.length = h.advanced ∧ i.toInt = (h.advanced % n : Nat)
  | .storeRead j => h.returned.length = h.advanced ∧ j.toInt = ((h.advanced + 1) % n : Nat) ∧
      h.advanced < h.published
  | .readSlot j => h.returned.length + 1 = h.advanced ∧ j.toInt = (h.advanced % n : Nat)
  | .panicked => False

structure Inv (mem : SlotMemory M T) (n : Nat) (h : History T) (s : Sys M T) : Prop where
  size : s.ring.size = n
  write : s.ring.write.toNat = h.published % n
  read : s.ring.read.toNat = h.advanced % n
  low : h.advanced ≤ h.published
  high : h.published < h.advanced + n
  producer : ProducerAt n h s.producer
  consumer : ConsumerAt n h s.consumer
  places : ∀ (k : Nat) (e : T) (j : Int64), h.completed[k]? = some (e, j) →
    j.toInt = ((k + 1) % n : Nat)
  slots : ∀ (k : Nat) (e : T) (j : Int64), h.completed[k]? = some (e, j) →
    h.returned.length ≤ k → mem.load s.mem (mem.addr s.ring.base j.toInt) = .val e

theorem invStart (mem : SlotMemory M T) (bs : Int) {cap : UInt64} (nonzero : cap ≠ 0) (m : M) :
    Inv mem (RingBuf.new bs cap).size (history []) (start bs cap m : Sys M T) where
  size := rfl
  write := (Nat.zero_mod _).symm
  read := (Nat.zero_mod _).symm
  low := Nat.le_refl _
  high := by simpa [history] using sizeNewPositive bs nonzero
  producer := ⟨rfl, rfl⟩
  consumer := rfl
  places := by simp [history]
  slots := by simp [history]

section
variable {mem : SlotMemory M T} {n : Nat} {h : History T} {s : Sys M T}

theorem Inv.positive (i : Inv mem n h s) : 0 < n := by
  have low := i.low
  have high := i.high
  omega

theorem Inv.returnedLow (i : Inv mem n h s) : h.advanced ≤ h.returned.length + 1 := by
  have here := i.consumer
  cases pc : s.consumer <;> simp only [pc, ConsumerAt] at here <;> omega

theorem Inv.readSmall (i : Inv mem n h s) : s.ring.read.toNat < s.ring.size := by
  rw [i.read, i.size]
  exact Nat.mod_lt _ i.positive

theorem Inv.writeSmall (i : Inv mem n h s) : s.ring.write.toNat < s.ring.size := by
  rw [i.write, i.size]
  exact Nat.mod_lt _ i.positive

theorem nextIndOf {r : RingBuf} {k : Nat} {ind : UInt64} {j : Int64} (inside : ind.toNat < r.size)
    (size : r.size = n) (value : ind.toNat = k % n)
    (next : nextInd r.capacity ind.toInt64 = some j) : j.toInt = ((k + 1) % n : Nat) := by
  obtain ⟨i, found, same⟩ := nextIndSpec inside
  rw [next] at found
  cases Option.some.inj found
  rw [same, size, value, nextRemainder]

theorem nextIndDefined {r : RingBuf} {ind : UInt64} (inside : ind.toNat < r.size) :
    nextInd r.capacity ind.toInt64 ≠ none := by
  obtain ⟨j, found, _⟩ := nextIndSpec inside
  simp [found]

theorem pushFullIff {elem j} (i : Inv mem n h s) (pc : s.producer = .compare elem j) :
    j = s.ring.read.toInt64 ↔ h.published + 1 = h.advanced + n := by
  have here := i.producer
  rw [pc] at here
  have small : s.ring.read.toNat < 2 ^ 63 := Nat.lt_of_lt_of_le i.readSmall (sizeLe s.ring)
  rw [indexEq here.2.2 small, i.read]
  exact fullIff i.low i.high

theorem popEmptyIff {curInd} (i : Inv mem n h s) (pc : s.consumer = .compare curInd) :
    curInd = s.ring.write.toInt64 ↔ h.published = h.advanced := by
  have here := i.consumer
  rw [pc] at here
  have small : s.ring.write.toNat < 2 ^ 63 := Nat.lt_of_lt_of_le i.writeSmall (sizeLe s.ring)
  rw [indexEq here.2 small, i.write]
  exact emptyIff i.low i.high

/- Only the consumer stores `read`, so the index it loaded is still the shared one. -/
theorem consumerIndex {curInd} (i : Inv mem n h s) (pc : s.consumer = .compare curInd) :
    curInd = s.ring.read.toInt64 := by
  have here := i.consumer
  rw [pc] at here
  have small : s.ring.read.toNat < 2 ^ 63 := Nat.lt_of_lt_of_le i.readSmall (sizeLe s.ring)
  rw [indexEq here.2 small, i.read]

theorem pendingPlace {k : Nat} {e : T} {j : Int64} (i : Inv mem n h s) (member : h.completed[k]? = some (e, j))
    (pending : h.returned.length ≤ k) :
    j.toInt = ((k + 1) % n : Nat) ∧ h.advanced ≤ k + 1 ∧ k < h.completed.length := by
  have low := i.returnedLow
  exact ⟨i.places k e j member, by omega, (List.getElem?_eq_some_iff.mp member).1⟩

/- The one slot left blank: what a push is about to write is never a pending slot. -/
theorem blankSlot {k p : Nat} {e : T} {j : Int64} (i : Inv mem n h s)
    (member : h.completed[k]? = some (e, j))
    (pending : h.returned.length ≤ k) (place : p < h.advanced + n) (next : h.completed.length < p) :
    j.toInt ≠ (p % n : Nat) := by
  obtain ⟨value, low, bound⟩ := pendingPlace i member pending
  have apart : (k + 1) % n ≠ p % n := windowDistinct (by omega) (by omega)
  rw [value]
  exact_mod_cast apart

theorem invPublish {elem j} (i : Inv mem n h s) (pc : s.producer = .storeWrite elem j) :
    Inv mem n (h.add .publish) { s with
      ring := { s.ring with write := j.toUInt64 }, producer := .writeSlot elem j } := by
  have here := i.producer
  rw [pc] at here
  obtain ⟨length, calls, value, room⟩ := here
  have low := i.low
  refine { i with write := toUInt64OfNonneg value, low := ?_, high := room, producer := ?_, consumer := ?_ }
  · change h.advanced ≤ h.published + 1
    omega
  · exact ⟨congrArg Nat.succ length, calls, value⟩
  · have consumer := i.consumer
    cases pc' : s.consumer <;> rw [pc'] at consumer
    case storeRead next => exact ⟨consumer.1, consumer.2.1, Nat.lt_succ_of_lt consumer.2.2⟩
    all_goals exact consumer

theorem invPushOk {elem j} (i : Inv mem n h s) (pc : s.producer = .writeSlot elem j) :
    Inv mem n (h.add (.pushOk elem j)) { s with
      mem := mem.store s.mem (mem.addr s.ring.base j.toInt) elem, producer := .idle } := by
  have here := i.producer
  rw [pc] at here
  obtain ⟨length, calls, value⟩ := here
  have high := i.high
  -- The list of completed pushes grows at its end, so an index is old or the new one.
  have split : ∀ {k e j'}, (h.completed ++ [(elem, j)])[k]? = some (e, j') →
      h.completed[k]? = some (e, j') ∨ (k = h.completed.length ∧ e = elem ∧ j' = j) := by
    intro k e j' member
    rcases Nat.lt_or_ge k h.completed.length with old | last
    · exact .inl (by rwa [List.getElem?_append_left old] at member)
    · have bound := (List.getElem?_eq_some_iff.mp member).1
      simp only [List.length_append, List.length_singleton] at bound
      have place : k = h.completed.length := by omega
      subst place
      simp only [List.getElem?_concat_length, Option.some.injEq, Prod.mk.injEq] at member
      exact .inr ⟨rfl, member.1.symm, member.2.symm⟩
  refine { i with producer := ⟨?_, ?_⟩, places := ?_, slots := ?_ }
  · simpa [History.add] using length
  · simpa [History.add] using calls
  · intro k e j' member
    rcases split member with old | ⟨rfl, rfl, rfl⟩
    · exact i.places k e j' old
    · rw [value, length]
  · intro k e j' member pending
    change mem.load (mem.store s.mem _ elem) (mem.addr s.ring.base j'.toInt) = .val e
    rcases split member with old | ⟨rfl, rfl, rfl⟩
    · have blank := blankSlot (p := h.published) i old pending high (by omega)
      rw [← value] at blank
      rw [loadOther mem s.mem s.ring.base elem blank]
      exact i.slots k e j' old pending
    · exact mem.loadStore s.mem _ e

theorem invAdvance {j} (i : Inv mem n h s) (pc : s.consumer = .storeRead j) :
    Inv mem n (h.add .advance) { s with
      ring := { s.ring with read := j.toUInt64 }, consumer := .readSlot j } := by
  have here := i.consumer
  rw [pc] at here
  obtain ⟨length, value, available⟩ := here
  have high := i.high
  refine { i with read := toUInt64OfNonneg value, low := available, high := ?_, producer := ?_, consumer := ?_ }
  · change h.published < h.advanced + 1 + n
    omega
  · have producer := i.producer
    cases pc' : s.producer <;> rw [pc'] at producer
    case storeWrite elem next =>
      obtain ⟨a, b, c, room⟩ := producer
      refine ⟨a, b, c, ?_⟩
      change h.published + 1 < h.advanced + 1 + n
      omega
    all_goals exact producer
  · exact ⟨congrArg Nat.succ length, value⟩

theorem invPopSome {j v} (i : Inv mem n h s) (pc : s.consumer = .readSlot j) :
    Inv mem n (h.add (.popSome j v)) { s with consumer := .idle } := by
  have here := i.consumer
  rw [pc] at here
  refine { i with consumer := ?_, slots := ?_ }
  · simpa [ConsumerAt, History.add] using here.1
  · intro k e j' member pending
    simp only [History.add, List.length_append, List.length_singleton] at pending
    exact i.slots k e j' member (by omega)

theorem invTook {a ev t} (i : Inv mem n h s) (took : Took mem s a ev t) : Inv mem n (h.add ev) t := by
  have producer := i.producer
  have consumer := i.consumer
  cases took with
  | pushCall pc next =>
    rw [pc] at producer
    have value := nextIndOf i.writeSmall i.size i.write next
    exact { i with producer := ⟨producer.1, congrArg (· ++ [_]) producer.2, value⟩ }
  | pushPanic pc next => exact absurd next (nextIndDefined i.writeSmall)
  | pushFull pc same =>
    rw [pc] at producer
    refine { i with producer := ⟨producer.1, ?_⟩ }
    simp [History.add, producer.2.1]
  | pushRoom pc different =>
    rw [pc] at producer
    have high := i.high
    have notFull : h.published + 1 ≠ h.advanced + n := fun full => different ((pushFullIff i pc).mpr full)
    have room : h.published + 1 < h.advanced + n := by omega
    exact { i with producer := ⟨producer.1, producer.2.1, producer.2.2, room⟩ }
  | publish pc => exact invPublish i pc
  | pushOk pc => exact invPushOk i pc
  | popCall pc =>
    rw [pc] at consumer
    have bound := sizeLe s.ring
    have small := i.readSmall
    refine { i with consumer := ⟨consumer, ?_⟩ }
    rw [toIntOfSmall (by omega), i.read]
    rfl
  | popEmpty pc same =>
    rw [pc] at consumer
    exact { i with consumer := consumer.1 }
  | popFound pc different found =>
    rw [pc] at consumer
    have low := i.low
    have notEmpty : h.published ≠ h.advanced := fun empty => different ((popEmptyIff i pc).mpr empty)
    have available : h.advanced < h.published := by omega
    rw [consumerIndex i pc] at found
    exact { i with consumer := ⟨consumer.1, nextIndOf i.readSmall i.size i.read found, available⟩ }
  | popPanic pc different found =>
    rw [consumerIndex i pc] at found
    exact absurd found (nextIndDefined i.readSmall)
  | advance pc => exact invAdvance i pc
  | popSome pc => exact invPopSome i pc

/- The pop that reads its slot after the matching push wrote it gets that push's value:
both computed the same slot, and nothing wrote there in between. -/
theorem popReads {j : Int64} {e : T} {place : Int64} (i : Inv mem n h s) (pc : s.consumer = .readSlot j)
    (member : h.completed[h.returned.length]? = some (e, place)) :
    mem.load s.mem (mem.addr s.ring.base j.toInt) = .val e := by
  have here := i.consumer
  rw [pc] at here
  have same : place.toInt = j.toInt := by
    rw [i.places _ e place member, here.2, here.1]
  rw [← same]
  exact i.slots _ e place member (Nat.le_refl _)

end

theorem invRun {mem : SlotMemory M T} {bs : Int} {cap : UInt64} {m : M} {acts evs s}
    (nonzero : cap ≠ 0) (ok : run (step mem) (start bs cap m) acts = some (evs, s)) :
    Inv mem (RingBuf.new bs cap).size (history evs) s := by
  refine runInvariant (fun past s => Inv mem (RingBuf.new bs cap).size (history past) s) ?_
    (invStart mem bs nonzero m) ok
  intro past s a e t i taken
  rw [historySnoc]
  exact invTook i (stepTook taken)

def aboutToWrite : Producer T → Option Int64
  | .storeWrite _ curInd => some curInd
  | .writeSlot _ curInd => some curInd
  | _ => none

structure NoOverrun (mem : SlotMemory M T) (cap : Nat) (evs : List (Event T)) (s : Sys M T) : Prop where
  low : (history evs).advanced ≤ (history evs).published
  high : (history evs).published - (history evs).advanced ≤ cap - 1
  blank : ∀ target, aboutToWrite s.producer = some target →
    ∀ (k : Nat) (e : T) (place : Int64), (history evs).completed[k]? = some (e, place) →
      (history evs).returned.length ≤ k → place ≠ target
  full : ∀ a t, step mem s a = some (.pushFull, t) →
    (history evs).published - (history evs).advanced = cap - 1
  empty : ∀ a t, step mem s a = some (.popEmpty, t) → (history evs).published = (history evs).advanced
  value : ∀ a t place v, step mem s a = some (.popSome place v, t) →
    ∀ (e : T) (slot : Int64), (history evs).completed[(history evs).returned.length]? = some (e, slot) →
      v = .val e

theorem aboutToWritePlace {mem : SlotMemory M T} {n : Nat} {h : History T} {s : Sys M T} {target}
    (i : Inv mem n h s) (pc : aboutToWrite s.producer = some target) :
    ∃ p, target.toInt = (p % n : Nat) ∧ h.completed.length < p ∧ p < h.advanced + n := by
  have here := i.producer
  have high := i.high
  cases pc' : s.producer <;> simp only [pc', aboutToWrite, Option.some.injEq, reduceCtorEq] at pc
  case storeWrite elem j =>
    subst pc
    rw [pc'] at here
    obtain ⟨length, _, value, room⟩ := here
    exact ⟨h.published + 1, value, by omega, room⟩
  case writeSlot elem j =>
    subst pc
    rw [pc'] at here
    obtain ⟨length, _, value⟩ := here
    exact ⟨h.published, value, by omega, high⟩

theorem noOverrunOfSize {mem : SlotMemory M T} {bs : Int} {cap : UInt64} {m : M} {acts evs s}
    (nonzero : cap ≠ 0) (ok : run (step mem) (start bs cap m) acts = some (evs, s)) :
    NoOverrun mem (RingBuf.new bs cap).size evs s := by
  have i := invRun nonzero ok
  have low := i.low
  have high := i.high
  refine ⟨low, by omega, ?_, ?_, ?_, ?_⟩
  · intro target pc k e place member pending same
    obtain ⟨p, value, next, room⟩ := aboutToWritePlace i pc
    apply blankSlot i member pending room next
    rw [same, value]
  · intro a t taken
    cases stepTook taken with
    | pushFull pc same =>
      have full := (pushFullIff i pc).mp same
      omega
  · intro a t taken
    cases stepTook taken with
    | popEmpty pc same => exact (popEmptyIff i pc).mp same
  · intro a t place v taken e slot member
    cases stepTook taken with
    | popSome pc => exact popReads i pc member

theorem pushesAlone (mem : SlotMemory M T) (bs : Int) {cap : UInt64} (nonzero : cap ≠ 0) (m : M) (elem : T)
    (k : Nat) (room : k < (RingBuf.new bs cap).size) :
    ∃ acts evs s, run (step mem) (start bs cap m) acts = some (evs, s) ∧ s.producer = .idle ∧
      s.ring.size = (RingBuf.new bs cap).size ∧ Indexed s.ring 0 k := by
  induction k with
  | zero => exact ⟨[], [], start bs cap m, rfl, rfl, rfl, indexedNew bs nonzero⟩
  | succ k ih =>
    obtain ⟨acts, evs, s, ran, idle, size, ix⟩ := ih (Nat.lt_of_succ_lt room)
    have more : k + 1 < s.ring.size := size ▸ room
    obtain ⟨j, value, done⟩ := pushRoom ix more mem s.mem elem
    obtain ⟨rest, later, _, pushed, _⟩ := pushAlone idle done
    exact ⟨acts ++ .push elem :: rest, evs ++ later, _, runThen ran pushed, idle, size, indexedPush ix more value⟩

theorem reachesFull (mem : SlotMemory M T) (bs : Int) {cap : UInt64} (nonzero : cap ≠ 0) (m : M) (elem : T) :
    ∃ acts evs s t, run (step mem) (start bs cap m) acts = some (evs, s) ∧
      step mem s .producer = some (.pushFull, t) := by
  have positive := sizeNewPositive bs nonzero
  obtain ⟨acts, evs, s, ran, idle, size, ix⟩ :=
    pushesAlone mem bs nonzero m elem ((RingBuf.new bs cap).size - 1) (by omega)
  have refused := pushFull ix (by omega) mem s.mem elem
  obtain ⟨curInd, next, now⟩ := Option.bind_eq_some_iff.mp refused
  have called : step mem s (.push elem) = some (.pushCall elem, { s with producer := .compare elem curInd }) := by
    simp [step, idle, next]
  have same : curInd = s.ring.read.toInt64 := by
    split at now
    · assumption
    · cases Option.some.inj now
  exact ⟨_, _, _, _, runExtend ran called, if_pos same⟩

theorem spscNeverOverrunsIff [Nonempty T] (mem : SlotMemory M T) (bs : Int) (cap : UInt64) (m : M)
    (atLeast : 1 ≤ cap) :
    (∀ acts evs s, run (step mem) (start bs cap m) acts = some (evs, s) →
        NoOverrun mem (RingBuf.new bs cap).size evs s) ∧
      ((∀ acts evs s, run (step mem) (start bs cap m) acts = some (evs, s) → NoOverrun mem cap.toNat evs s) ↔
        cap.toNat ≤ 2 ^ 63) := by
  have nonzero := nonzeroOfPositive (UInt64.le_iff_toNat_le.mp atLeast)
  have sized : ∀ acts evs s, run (step mem) (start bs cap m) acts = some (evs, s) →
      NoOverrun mem (RingBuf.new bs cap).size evs s := fun _ _ _ ok => noOverrunOfSize nonzero ok
  refine ⟨sized, ?_⟩
  rw [← sizeNewIff bs cap]
  constructor
  · intro never
    obtain ⟨elem⟩ := ‹Nonempty T›
    obtain ⟨acts, evs, s, t, ran, full⟩ := reachesFull mem bs nonzero m elem
    have slots := (sized acts evs s ran).full _ _ full
    have promised := (never acts evs s ran).full _ _ full
    have positive := sizeNewPositive bs nonzero
    have large : 1 ≤ cap.toNat := UInt64.le_iff_toNat_le.mp atLeast
    omega
  · intro same
    rw [← same]
    exact sized

def wraps : List (Act Nat) :=
  [.push 7, .producer, .producer, .producer, .push 8, .producer, .consumer, .consumer, .consumer,
    .push 8, .producer, .producer, .consumer, .producer, .consumer, .consumer, .consumer, .consumer]

theorem spscNeverOverrunsAtTwo :
    ∃ evs s, run (step (cells Nat)) (start 0 2 (fun _ => .uninit)) wraps = some (evs, s) ∧
      .pushFull ∈ evs ∧ (history evs).returned = [.val 7, .val 8] ∧ s.ring.write = 0 ∧ s.ring.read = 0 ∧
      NoOverrun (cells Nat) 2 evs s :=
  ⟨_, _, rfl, by decide, rfl, rfl, rfl,
    (spscNeverOverrunsIff (cells Nat) 0 2 (fun _ => .uninit) (by decide)).2.mpr (by decide) wraps _ _ rfl⟩

theorem fullWithOneElement :
    ∃ evs s t, run (step (cells Nat)) (start 0 18446744073709551614 (fun _ => .uninit))
        [.push 7, .producer, .producer, .producer, .push 8] = some (evs, s) ∧
      step (cells Nat) s .producer = some (.pushFull, t) ∧
      (history evs).published - (history evs).advanced = 1 ∧
      ¬ NoOverrun (cells Nat) 18446744073709551614 evs s := by
  refine ⟨_, _, _, rfl, rfl, rfl, fun never => ?_⟩
  exact absurd (never.full .producer _ rfl) (by decide)

/- The consumer overtakes the producer when it reads the very slot the producer is about
to write: `push` has published the index and has not stored the element yet. -/
def overtakes (s : Sys M T) : Act T → Bool
  | .consumer => match s.consumer, s.producer with
    | .readSlot mine, .writeSlot _ theirs => theirs == mine
    | _, _ => false
  | _ => false

def SlotReady (s : Sys M T) (a : Act T) : Prop := overtakes s a = false

instance (s : Sys M T) (a : Act T) : Decidable (SlotReady s a) :=
  inferInstanceAs (Decidable (overtakes s a = false))

theorem readyCompleted {mem : SlotMemory M T} {n : Nat} {h : History T} {s : Sys M T} {j : Int64}
    (i : Inv mem n h s) (pc : s.consumer = .readSlot j) (ready : SlotReady s .consumer) :
    h.returned.length < h.completed.length := by
  have consumer := i.consumer
  have producer := i.producer
  have low := i.low
  rw [pc] at consumer
  obtain ⟨count, mine⟩ := consumer
  cases pc' : s.producer <;> rw [pc'] at producer
  case idle => have := producer.1; omega
  case compare => have := producer.1; omega
  case storeWrite => have := producer.1; omega
  case writeSlot elem theirs =>
    obtain ⟨length, _, value⟩ := producer
    simp only [SlotReady, overtakes, pc, pc', beq_eq_false_iff_ne] at ready
    have behind : h.published ≠ h.advanced := by
      intro same
      apply ready
      rw [← Int64.toInt_inj, value, mine, same]
    omega
  case panicked => exact producer.elim

theorem prefixGrows {α : Type} {front whole : List α} {x : α} (inside : front <+: whole)
    (next : whole[front.length]? = some x) : front ++ [x] <+: whole := by
  obtain ⟨rest, rfl⟩ := inside
  rw [List.getElem?_append_right (Nat.le_refl _), Nat.sub_self] at next
  cases rest with
  | nil => simp at next
  | cons y ys =>
    simp only [List.getElem?_cons_zero, Option.some.injEq] at next
    subst next
    exact ⟨ys, by simp⟩

def Delivered (h : History T) : Prop :=
  h.returned <+: h.completed.map (fun c => Slot.val c.1)

theorem deliveredTook {mem : SlotMemory M T} {n : Nat} {h : History T} {s : Sys M T} {a ev t}
    (i : Inv mem n h s) (before : Delivered h) (ready : SlotReady s a) (took : Took mem s a ev t) :
    Delivered (h.add ev) := by
  cases took with
  | pushOk pc =>
    refine before.trans ?_
    simp [History.add]
  | popSome pc =>
    have found := readyCompleted i pc ready
    have member := List.getElem?_eq_getElem found
    refine prefixGrows before ?_
    rw [popReads i pc member, List.getElem?_map]
    exact congrArg (Option.map _) member
  | pushCall | pushPanic | pushFull | pushRoom | publish | popCall | popEmpty | popFound
  | popPanic | advance => exact before

theorem completedAccepted {mem : SlotMemory M T} {n : Nat} {h : History T} {s : Sys M T}
    (i : Inv mem n h s) : h.completed.map Prod.fst <+: h.accepted := by
  have here := i.producer
  cases pc : s.producer <;> rw [pc] at here
  case idle => exact ⟨[], by simp [here.2]⟩
  case panicked => exact here.elim
  all_goals
    rw [here.2.1]
    exact List.prefix_append _ _

theorem poppedArePushedInOrder (mem : SlotMemory M T) (bs : Int) (cap : UInt64) (m : M)
    (atLeast : 1 ≤ cap) (acts : List (Act T)) {evs s}
    (ok : run (guarded SlotReady (step mem)) (start bs cap m) acts = some (evs, s)) :
    (history evs).returned <+: (history evs).accepted.map Slot.val := by
  have nonzero := nonzeroOfPositive (UInt64.le_iff_toNat_le.mp atLeast)
  obtain ⟨i, delivered⟩ := runInvariant
    (fun past s => Inv mem (RingBuf.new bs cap).size (history past) s ∧ Delivered (history past)) (by
      rintro past s a e t ⟨i, before⟩ taken
      obtain ⟨ready, plain⟩ := guardedStep taken
      have took := stepTook plain
      rw [historySnoc]
      exact ⟨invTook i took, deliveredTook i before ready took⟩)
    ⟨invStart mem bs nonzero m, List.nil_prefix⟩ ok
  have calls := (completedAccepted i).map Slot.val
  rw [List.map_map] at calls
  exact delivered.trans calls

theorem poppedArePushedInOrderOnce :
    ∃ s, run (guarded SlotReady (step (cells Nat))) (start 0 2 (fun _ => .uninit))
        [.push 7, .producer, .producer, .producer, .consumer, .consumer, .consumer, .consumer] =
          some ([.pushCall 7, .pushRoom, .publish, .pushOk 7 1,
            .popCall, .popFound, .advance, .popSome 1 (.val 7)], s) ∧
      (history [.pushCall 7, .pushRoom, .publish, .pushOk 7 1,
        .popCall, .popFound, .advance, .popSome 1 (.val 7)]).returned <+: [.val 7] := by
  refine ⟨_, rfl, ?_⟩
  exact poppedArePushedInOrder (cells Nat) 0 2 (fun _ => .uninit) (by decide)
    [.push 7, .producer, .producer, .producer, .consumer, .consumer, .consumer, .consumer] rfl

theorem popReturnsUnwrittenSlot :
    ∃ s, run (step (cells Nat)) (start 0 2 (fun _ => .uninit))
        [.push 7, .producer, .producer, .consumer, .consumer, .consumer, .consumer] =
          some ([.pushCall 7, .pushRoom, .publish, .popCall, .popFound, .advance, .popSome 1 .uninit], s) ∧
      ¬ (history [.pushCall 7, .pushRoom, .publish, .popCall, .popFound, .advance,
          .popSome 1 .uninit]).returned <+:
        (history [.pushCall 7, .pushRoom, .publish, .popCall, .popFound, .advance,
          .popSome 1 .uninit]).accepted.map Slot.val :=
  ⟨_, rfl, by decide⟩

end Vdp.IpcQueue.Spsc
