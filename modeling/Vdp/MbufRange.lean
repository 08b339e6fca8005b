import Vdp.MbufData

/-! The calls of `Mbuf` over the whole range of their machine-word arguments: which of them
compare a sum that may have wrapped, and what follows. The resizing calls go wrong on one
kind of argument only; of the accessors, reading one item is safe throughout. -/
namespace Vdp.Mbuf
open Lib.Bytes Lib.Wrap Lib.Words

inductive Resizing where
  | extend (offset len : UInt64)
  | shrink (offset len : UInt64)
  | truncate (toLen : UInt64)
  | resize (offset : UInt64) (len : Int64)

def resizing (m : Mbuf) : Resizing → Noted Note (Except BufError Unit × Mbuf)
  | .extend offset len => extend m offset len
  | .shrink offset len => shrink m offset len
  | .truncate toLen => truncate m toLen
  | .resize offset len => resize m offset len

def Fits (m : Mbuf) : Resizing → Prop
  | .extend offset len => offset.toNat ≤ m.dataLen.toNat ∧ len.toNat ≤ room m
  | .shrink offset len => offset.toNat + len.toNat ≤ m.dataLen.toNat
  | .truncate toLen => toLen.toNat ≤ m.dataLen.toNat
  | .resize offset len =>
    if len < 0 then offset.toNat + (-len.toInt).toNat ≤ m.dataLen.toNat
    else offset.toNat ≤ m.dataLen.toNat ∧ len.toInt.toNat ≤ room m

def Note.InBuffer (m : Mbuf) : Note → Prop
  | .wrapped _ => True
  | .moved src dst count => m.dataOff.toNat ≤ src ∧ src + count ≤ m.bufLen.toNat ∧
      m.dataOff.toNat ≤ dst ∧ dst + count ≤ m.bufLen.toNat
  | .stored dst count => m.dataOff.toNat ≤ dst ∧ dst + count ≤ m.bufLen.toNat

structure Safe (m : Mbuf) (fits : Prop) (r : Noted Note (Except BufError Unit × Mbuf)) : Prop where
  refused : ¬ fits → r.val = (.error .notResized, m)
  inside : fits → ∀ note ∈ r.notes, note.InBuffer m

def SumSlips (m : Mbuf) (offset len : Nat) : Prop :=
  2 ^ 64 ≤ offset + len ∧ offset + len ≤ 2 ^ 64 + m.dataLen.toNat

def Slips (m : Mbuf) : Resizing → Prop
  | .shrink offset len => SumSlips m offset.toNat len.toNat
  | .resize offset len => len < 0 ∧ SumSlips m offset.toNat (-len.toInt).toNat
  | .extend _ _ | .truncate _ => False

theorem keptInBuffer {m after : Mbuf} {notes : List Note} (wf : Wf m) (kept : Kept m after notes) :
    ∀ note ∈ notes, note.InBuffer m := by
  intro note member
  have fits := wf.fits
  have later := kept.wf.fits
  rw [kept.bufLen, kept.dataOff] at later
  have inside := kept.inside note member
  cases note with
  | wrapped site => trivial
  | moved src dst count =>
    simp only [Note.Inside] at inside
    simp only [Note.InBuffer]
    omega
  | stored dst count =>
    simp only [Note.Inside] at inside
    simp only [Note.InBuffer]
    omega

theorem extendSafe {m : Mbuf} (wf : Wf m) (offset len : UInt64) :
    Safe m (offset.toNat ≤ m.dataLen.toNat ∧ len.toNat ≤ room m) (extend m offset len) where
  refused not := by
    rw [extendRefuses wf]
    rw [roomOfFits wf]
    intro ⟨_, fits⟩
    exact not fits
  inside _ := keptInBuffer wf (extendKept wf offset len)

theorem truncateSafe {m : Mbuf} (wf : Wf m) (toLen : UInt64) :
    Safe m (toLen.toNat ≤ m.dataLen.toNat) (truncate m toLen) where
  refused not := by
    apply (truncateRefines toLen).refused
    rw [dataLength]
    intro less
    exact not less.le
  inside _ := keptInBuffer wf (truncateKept wf toLen)

theorem shrinkSlips {m : Mbuf} {offset len : UInt64} (slips : SumSlips m offset.toNat len.toNat) :
    (shrink m offset len).val.1 = .ok () := by
  obtain ⟨wraps, low⟩ := slips
  have bound := offset.toNat_lt
  have bound' := len.toNat_lt
  have asked : ¬ len ≤ 0 := by
    simp only [UInt64.le_iff_toNat_le, UInt64.toNat_zero]
    omega
  have passes : ¬ offset + len > m.len := by
    simp only [gtLen, UInt64.toNat_add]
    omega
  simp only [shrink, if_neg asked, bindEq, add64, checked, if_neg passes, pureEq]
  split <;> rfl

theorem shrinkRefusesWide {m : Mbuf} {offset len : UInt64}
    (wide : 2 ^ 64 + m.dataLen.toNat < offset.toNat + len.toNat) :
    (shrink m offset len).val = (.error .notResized, m) := by
  have bound := offset.toNat_lt
  have bound' := len.toNat_lt
  have beyond : offset + len > m.len := by
    simp only [gtLen, UInt64.toNat_add]
    omega
  unfold shrink
  split
  · rfl
  · simp only [bindEq, add64, checked, if_pos beyond, pureEq]

theorem shrinkSafe {m : Mbuf} (wf : Wf m) (offset len : UInt64) :
    Safe m (offset.toNat + len.toNat ≤ m.dataLen.toNat) (shrink m offset len) ↔
      ¬ SumSlips m offset.toNat len.toNat := by
  have bound := m.dataLen.toNat_lt
  constructor
  · intro safe slips
    have refused := safe.refused (by have low := slips.1; omega)
    have ok := shrinkSlips slips
    rw [refused] at ok
    cases ok
  · intro sound
    constructor
    case refused =>
      intro not
      rcases Nat.lt_or_ge (offset.toNat + len.toNat) (2 ^ 64) with small | wraps
      · rw [shrinkRefuses small (fun fits => not fits.2)]
      · exact shrinkRefusesWide (Nat.lt_of_not_le (fun low => sound ⟨wraps, low⟩))
    case inside =>
      intro fits
      exact keptInBuffer wf (shrinkKept wf offset len (by omega))

/- A negation that wraps leaves a note but reads the right magnitude, so `resize` inherits
exactly the slip of `shrink`. -/
theorem resizeSafe {m : Mbuf} (wf : Wf m) (offset : UInt64) (len : Int64) :
    Safe m (Fits m (.resize offset len)) (resize m offset len) ↔ ¬ Slips m (.resize offset len) := by
  by_cases negative : len < 0
  · have magnitude := negatedNat negative
    obtain ⟨value, notes⟩ := resizeShrinks m offset negative
    have inherits : Safe m (Fits m (.resize offset len)) (resize m offset len) ↔
        Safe m (offset.toNat + (-len).toUInt64.toNat ≤ m.dataLen.toNat) (shrink m offset (-len).toUInt64) := by
      simp only [Fits, if_pos negative, magnitude]
      constructor
      · intro safe
        refine ⟨fun not => value ▸ safe.refused not, ?_⟩
        intro fits note member
        exact safe.inside fits note (notes ▸ List.mem_append_right _ member)
      · intro safe
        refine ⟨fun not => value ▸ safe.refused not, ?_⟩
        intro fits note member
        rw [notes] at member
        rcases List.mem_append.mp member with wrapped | rest
        · cases checkedNotes wrapped
          trivial
        · exact safe.inside fits note rest
    rw [inherits, shrinkSafe wf, magnitude]
    simp only [Slips, negative, true_and]
  · have above : 0 ≤ len.toInt := Int64.le_iff_toInt_le.mp (Int64.not_lt.mp negative)
    have magnitude : len.toUInt64.toNat = len.toInt.toNat := toUInt64OfNonneg (by omega)
    have safe := extendSafe wf offset len.toUInt64
    rw [magnitude] at safe
    simp only [Fits, resizeExtends m offset negative, Slips, negative, false_and,
      not_false_eq_true, iff_true]
    exact safe

theorem resizingSafeUnlessSumSlips (m : Mbuf) (wf : Wf m) (c : Resizing) :
    Safe m (Fits m c) (resizing m c) ↔ ¬ Slips m c := by
  cases c with
  | extend offset len =>
    simp only [Slips, not_false_eq_true, iff_true]
    exact extendSafe wf offset len
  | shrink offset len => exact shrinkSafe wf offset len
  | truncate toLen =>
    simp only [Slips, not_false_eq_true, iff_true]
    exact truncateSafe wf toLen
  | resize offset len => exact resizeSafe wf offset len

theorem resizingSafeAtSample : Safe sample (Fits sample (.shrink 1 2)) (resizing sample (.shrink 1 2)) :=
  (resizingSafeUnlessSumSlips sample ⟨by decide, by decide⟩ (.shrink 1 2)).mpr
    (by simp only [Slips, SumSlips]; decide)

theorem shrinkBelowBuffer : ¬ (∀ (m : Mbuf) (c : Resizing), Wf m → Safe m (Fits m c) (resizing m c)) := by
  intro every
  have safe := every sample (.shrink 0xFFFFFFFFFFFFFFFF 1) ⟨by decide, by decide⟩
  have refused := safe.refused (by simp [Fits, sample])
  have ok : (resizing sample (.shrink 0xFFFFFFFFFFFFFFFF 1)).val.1 = .ok () :=
    shrinkSlips (by simp [SumSlips, sample])
  rw [refused] at ok
  cases ok

/- The size of a type: a Rust type is never larger than `isize::MAX`, and neither is a
slice as a whole. -/
structure Layout where
  size : UInt64
  positive : 0 < size.toNat
  bounded : size.toNat < 2 ^ 63

structure Slice (t : Layout) where
  items : List (Vector UInt8 t.size.toNat)
  bounded : t.size.toNat * items.length < 2 ^ 63

variable {t : Layout}

inductive Access (t : Layout) where
  | readData (offset : UInt64)
  | readDataSlice (offset count : UInt64)
  | writeDataSlice (offset : UInt64) (slice : Slice t)

def access (m : Mbuf) : Access t → Reply
  | .readData offset => ⟨(readData m t.size offset).val.map (fun _ => ()), (readData m t.size offset).notes⟩
  | .readDataSlice offset count =>
    ⟨(readDataSlice m t.size offset count).val.map (fun _ => ()), (readDataSlice m t.size offset count).notes⟩
  | .writeDataSlice offset slice => (reply (writeDataSlice m t.size offset slice.items)).1

def Access.offset : Access t → Nat
  | .readData offset | .readDataSlice offset _ | .writeDataSlice offset _ => offset.toNat

def Access.bytes : Access t → Nat
  | .readData _ => t.size.toNat
  | .readDataSlice _ count => t.size.toNat * count.toNat
  | .writeDataSlice _ slice => t.size.toNat * slice.items.length

def Copied (notes : List Note) : Prop := ∃ dst count, 0 < count ∧ Note.stored dst count ∈ notes

structure Guarded (m : Mbuf) (offset bytes : Nat) (r : Reply) : Prop where
  region : r.result = .ok () ∨ Copied r.notes → offset + bytes ≤ m.dataLen.toNat
  quiet : ∀ e, r.result = .error e → ∀ site, Note.wrapped site ∉ r.notes

def InReach (m : Mbuf) : Access t → Prop
  | .readData _ => True
  | .readDataSlice offset count =>
    m.dataLen.toNat ≤ offset.toNat ∨ offset.toNat + t.size.toNat * count.toNat < 2 ^ 64
  | .writeDataSlice offset _ => offset.toNat ≤ m.dataLen.toNat

theorem guardedQuiet {m : Mbuf} {offset bytes : Nat} {r : Reply} (quiet : r.notes = [])
    (region : r.result = .ok () → offset + bytes ≤ m.dataLen.toNat) : Guarded m offset bytes r where
  region granted := by
    rcases granted with ok | ⟨dst, count, _, member⟩
    · exact region ok
    · rw [quiet] at member
      cases member
  quiet e _ site member := by
    rw [quiet] at member
    cases member

theorem readDataGuarded (m : Mbuf) (offset : UInt64) :
    Guarded m offset.toNat t.size.toNat (access m (.readData (t := t) offset)) := by
  have bound := m.dataLen.toNat_lt
  have size := t.bounded
  simp only [access, readData]
  split
  · exact guardedQuiet rfl (by intro ok; cases ok)
  · rename_i start
    simp only [geLen] at start
    obtain ⟨sumEq, sumVal⟩ := add64Exact (Note.wrapped .sum) offset t.size (by omega)
    obtain ⟨leftEq, _⟩ := sub64Exact (Note.wrapped .left) m.len offset (by rw [lenNat]; omega)
    simp only [sumEq, leftEq, addressExact m offset (by omega), bindEq, pureEq]
    split
    · exact guardedQuiet rfl (by intro ok; cases ok)
    · rename_i within
      simp only [gtLen, sumVal] at within
      exact guardedQuiet rfl (by intro; omega)

theorem readSliceGuarded {m : Mbuf} {offset count : UInt64} (reach : InReach m (.readDataSlice (t := t) offset count)) :
    Guarded m offset.toNat (t.size.toNat * count.toNat) (access m (.readDataSlice (t := t) offset count)) := by
  have bound := m.dataLen.toNat_lt
  by_cases start : offset ≥ m.len
  · simp only [access, readDataSlice, if_pos start]
    exact guardedQuiet rfl (by intro ok; cases ok)
  · have inside : offset.toNat < m.dataLen.toNat := by
      simpa only [geLen, not_le] using start
    have sum : offset.toNat + t.size.toNat * count.toNat < 2 ^ 64 := by
      rcases reach with beyond | sum
      · omega
      · exact sum
    apply guardedQuiet (readQuiet m t.size offset count (by omega) sum)
    intro ok
    obtain ⟨mulEq, mulVal⟩ := mul64Exact (Note.wrapped .product) t.size count (by omega)
    obtain ⟨sumEq, sumVal⟩ := add64Exact (Note.wrapped .sum) offset (t.size * count) (by omega)
    obtain ⟨leftEq, leftVal⟩ := sub64Exact (Note.wrapped .left) m.len offset (by rw [lenNat]; omega)
    simp only [access, readDataSlice, if_neg start, mulEq, sumEq, leftEq, bindEq, pureEq] at ok
    split at ok
    · cases ok
    · rename_i within
      simp only [gt_iff_lt, UInt64.lt_iff_toNat_lt, sumVal, mulVal, leftVal, lenNat] at within
      omega

theorem readSliceWraps {m : Mbuf} {size offset count : UInt64} (inside : offset.toNat < m.dataLen.toNat)
    (wraps : 2 ^ 64 ≤ offset.toNat + size.toNat * count.toNat) :
    ∃ site, Note.wrapped site ∈ (readDataSlice m size offset count).notes := by
  have start : ¬ offset ≥ m.len := by
    simpa only [geLen, not_le] using inside
  simp only [readDataSlice, if_neg start, bindEq]
  by_cases product : size.toNat * count.toNat < 2 ^ 64
  · obtain ⟨mulEq, mulVal⟩ := mul64Exact (Note.wrapped .product) size count product
    refine ⟨.sum, List.mem_append_right _ (List.mem_append_left _ ?_)⟩
    have high : ¬ offset.toNat + (size * count).toNat < 2 ^ 64 := by omega
    simp only [mulEq, add64, checked, if_neg high, List.mem_singleton]
  · refine ⟨.product, List.mem_append_left _ ?_⟩
    simp only [mul64, checked, if_neg product, List.mem_singleton]

theorem readSliceUnguarded {m : Mbuf} {offset count : UInt64}
    (out : ¬ InReach m (.readDataSlice (t := t) offset count)) :
    ¬ Guarded m offset.toNat (t.size.toNat * count.toNat) (access m (.readDataSlice (t := t) offset count)) := by
  intro guarded
  simp only [InReach, not_or, not_le, not_lt] at out
  obtain ⟨inside, wraps⟩ := out
  have bound := m.dataLen.toNat_lt
  cases result : (access m (.readDataSlice (t := t) offset count)).result with
  | ok done =>
    have region := guarded.region (.inl result)
    omega
  | error e =>
    obtain ⟨site, member⟩ := readSliceWraps inside wraps
    exact guarded.quiet e result site member

theorem writeGuarded {m : Mbuf} {offset : UInt64} {slice : Slice t} (reach : offset.toNat ≤ m.dataLen.toNat) :
    Guarded m offset.toNat (t.size.toNat * slice.items.length) (access m (.writeDataSlice offset slice)) := by
  have bound := m.dataLen.toNat_lt
  have small := slice.bounded
  have whole := mulOfNat t.size.toNat slice.items.length (by omega)
  obtain ⟨mulEq, mulVal⟩ := mul64Exact (Note.wrapped .product) t.size (UInt64.ofNat slice.items.length) (by omega)
  obtain ⟨sumEq, sumVal⟩ :=
    add64Exact (Note.wrapped .sum) offset (t.size * UInt64.ofNat slice.items.length) (by omega)
  obtain ⟨leftEq, _⟩ := sub64Exact (Note.wrapped .left) m.len offset (by rw [lenNat]; omega)
  simp only [access, reply, writeDataSlice, mulEq, sumEq, leftEq, bindEq, pureEq]
  split
  · exact guardedQuiet rfl (by intro ok; cases ok)
  · rename_i within
    simp only [gtLen] at within
    constructor
    case region => intro; omega
    case quiet =>
      intro e _ site member
      rw [addressExact m offset (by omega), readQuiet _ _ _ _ (by omega) (by omega)] at member
      simp [leave] at member

theorem writeRefusedWraps {m : Mbuf} {size offset : UInt64} {slice : List (Vector UInt8 size.toNat)}
    (beyond : m.dataLen.toNat < offset.toNat) (refused : offset + size * UInt64.ofNat slice.length > m.len) :
    (∃ e, (reply (writeDataSlice m size offset slice)).1.result = .error e) ∧
      Note.wrapped .left ∈ (reply (writeDataSlice m size offset slice)).1.notes := by
  simp only [reply, writeDataSlice, add64, mul64, checked, bindEq, pureEq, if_pos refused]
  refine ⟨⟨_, rfl⟩, ?_⟩
  simp [sub64, checked, beyond]

theorem writePassesCopies {m : Mbuf} {size offset : UInt64} {slice : List (Vector UInt8 size.toNat)}
    (some : 0 < size.toNat * slice.length) (passes : ¬ offset + size * UInt64.ofNat slice.length > m.len) :
    Copied (reply (writeDataSlice m size offset slice)).1.notes := by
  simp only [reply, writeDataSlice, add64, mul64, checked, bindEq, pureEq, if_neg passes]
  exists (dataAddress m offset).val, (slice.flatMap Vector.toList).length
  rw [sliceBytes]
  exact ⟨some, by simp [leave]⟩

/- Behind the data the refusal reports a difference that has wrapped. Where the sum has
wrapped too, the guard may pass instead, and then bytes are copied far outside. -/
theorem writeUnguarded {m : Mbuf} {offset : UInt64} {slice : Slice t} (beyond : m.dataLen.toNat < offset.toNat) :
    ¬ Guarded m offset.toNat (t.size.toNat * slice.items.length) (access m (.writeDataSlice offset slice)) := by
  intro guarded
  by_cases refused : offset + t.size * UInt64.ofNat slice.items.length > m.len
  · obtain ⟨⟨e, error⟩, member⟩ := writeRefusedWraps beyond refused
    exact guarded.quiet e error .left member
  · have small := slice.bounded
    have low := offset.toNat_lt
    have some : 0 < t.size.toNat * slice.items.length := by
      have whole := mulOfNat t.size.toNat slice.items.length (by omega)
      simp only [gtLen, UInt64.toNat_add, UInt64.toNat_mul, whole] at refused
      omega
    have region := guarded.region (.inr (writePassesCopies some refused))
    omega

theorem accessGuardedIffInReach (t : Layout) (m : Mbuf) (a : Access t) :
    Guarded m a.offset a.bytes (access m a) ↔ InReach m a := by
  cases a with
  | readData offset =>
    simp only [InReach, iff_true]
    exact readDataGuarded m offset
  | readDataSlice offset count =>
    constructor
    · intro guarded
      by_contra out
      exact readSliceUnguarded out guarded
    · exact readSliceGuarded
  | writeDataSlice offset slice =>
    constructor
    · intro guarded
      by_contra out
      exact writeUnguarded (Nat.lt_of_not_le out) guarded
    · exact writeGuarded

def byteLayout : Layout := ⟨1, by decide, by decide⟩

theorem writeBehindDataWraps :
    ¬ (∀ (t : Layout) (m : Mbuf) (a : Access t), Wf m → Guarded m a.offset a.bytes (access m a)) := by
  intro every
  exact writeUnguarded (by decide)
    (every byteLayout sample (.writeDataSlice 4 ⟨[#v[7]], by decide⟩) ⟨by decide, by decide⟩)

end Vdp.Mbuf
