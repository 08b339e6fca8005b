import Vdp.Lib.Bytes
import Vdp.Lib.Run
import Vdp.Lib.Words
import Vdp.Lib.Wrap

/-! `Mbuf` of `l3enginelib`, a single-segment packet buffer. The buffer bytes are
addressed relative to `buf_addr`, so an access outside the buffer is expressible.
Fields and arguments keep their widths; the arithmetic is that of a release build and
leaves a note wherever a checked build would stop. An element of type `T` is its bytes. -/
namespace Vdp
open Lib.Bytes Lib.Wrap Lib.Words Lib.Run

structure Mbuf where
  bufLen : UInt16
  dataOff : UInt16
  dataLen : UInt16
  pktLen : UInt32
  bytes : Memory

namespace Mbuf

inductive BufError where
  | badOffset (offset length : UInt64)
  | notResized
  | outOfBuffer (size left : UInt64)
  deriving DecidableEq, Repr

inductive Site where
  | tailroom
  | dataLen
  | pktLen
  | address
  | sum
  | product
  | negation
  | toCopy
  | left
  deriving DecidableEq, Repr

inductive Note where
  | wrapped (site : Site)
  | moved (src dst : Int) (count : Nat)
  | stored (dst : Int) (count : Nat)
  deriving DecidableEq, Repr

def len (m : Mbuf) : UInt64 := m.dataLen.toUInt64

def dataAddress (m : Mbuf) (offset : UInt64) : Noted Note Int := do
  let place ← addI64 (.wrapped .address) m.dataOff.toUInt64.toInt64 offset.toInt64
  pure place.toInt

def tailroom (m : Mbuf) : Noted Note UInt64 := do
  let behind ← sub16 (.wrapped .tailroom) m.bufLen m.dataOff
  let room ← sub16 (.wrapped .tailroom) behind m.dataLen
  pure room.toUInt64

def ptrCopy (m : Mbuf) (src dst : Int) (count : UInt64) : Noted Note Mbuf := do
  leave (.moved src dst count.toNat)
  pure { m with bytes := move m.bytes src dst count.toNat }

def extend (m : Mbuf) (offset len : UInt64) : Noted Note (Except BufError Unit × Mbuf) := do
  if len ≤ 0 ∨ offset > m.len then
    pure (.error .notResized, m)
  else
    let room ← tailroom m
    if len > room then
      pure (.error .notResized, m)
    else
      let toCopy ← sub64 (.wrapped .toCopy) m.len offset
      let shifted ← if toCopy > 0 then do
          let src ← dataAddress m offset
          let behind ← add64 (.wrapped .sum) offset len
          let dst ← dataAddress m behind
          ptrCopy m src dst toCopy
        else pure m
      let dataLen ← add16 (.wrapped .dataLen) shifted.dataLen len.toUInt16
      let pktLen ← add32 (.wrapped .pktLen) shifted.pktLen len.toUInt32
      pure (.ok (), { shifted with dataLen := dataLen, pktLen := pktLen })

def shrink (m : Mbuf) (offset len : UInt64) : Noted Note (Except BufError Unit × Mbuf) := do
  if len ≤ 0 then
    pure (.error .notResized, m)
  else
    let stop ← add64 (.wrapped .sum) offset len
    if stop > m.len then
      pure (.error .notResized, m)
    else
      let behind ← sub64 (.wrapped .toCopy) m.len offset
      let toCopy ← sub64 (.wrapped .toCopy) behind len
      let shifted ← if toCopy > 0 then do
          let behind ← add64 (.wrapped .sum) offset len
          let src ← dataAddress m behind
          let dst ← dataAddress m offset
          ptrCopy m src dst toCopy
        else pure m
      let dataLen ← sub16 (.wrapped .dataLen) shifted.dataLen len.toUInt16
      let pktLen ← sub32 (.wrapped .pktLen) shifted.pktLen len.toUInt32
      pure (.ok (), { shifted with dataLen := dataLen, pktLen := pktLen })

def resize (m : Mbuf) (offset : UInt64) (len : Int64) : Noted Note (Except BufError Unit × Mbuf) := do
  if len < 0 then
    let less ← negI64 (.wrapped .negation) len
    shrink m offset less.toUInt64
  else
    extend m offset len.toUInt64

def truncate (m : Mbuf) (toLen : UInt64) : Noted Note (Except BufError Unit × Mbuf) :=
  if toLen ≥ m.len then
    pure (.error .notResized, m)
  else
    pure (.ok (), { m with dataLen := toLen.toUInt16, pktLen := toLen.toUInt32 })

def readData (m : Mbuf) (size offset : UInt64) : Noted Note (Except BufError Int) := do
  if offset ≥ m.len then
    pure (.error (.badOffset offset m.len))
  else
    let stop ← add64 (.wrapped .sum) offset size
    if stop > m.len then
      let left ← sub64 (.wrapped .left) m.len offset
      pure (.error (.outOfBuffer size left))
    else
      let item ← dataAddress m offset
      pure (.ok item)

structure View where
  address : Int
  count : UInt64
  deriving DecidableEq, Repr

def readDataSlice (m : Mbuf) (size offset count : UInt64) : Noted Note (Except BufError View) := do
  if offset ≥ m.len then
    pure (.error (.badOffset offset m.len))
  else
    let whole ← mul64 (.wrapped .product) size count
    let stop ← add64 (.wrapped .sum) offset whole
    let left ← sub64 (.wrapped .left) m.len offset
    if stop > left then
      let whole ← mul64 (.wrapped .product) size count
      let left ← sub64 (.wrapped .left) m.len offset
      pure (.error (.outOfBuffer whole left))
    else
      let item0 ← dataAddress m offset
      pure (.ok ⟨item0, count⟩)

def writeDataSlice (m : Mbuf) (size offset : UInt64) (slice : List (Vector UInt8 size.toNat)) :
    Noted Note (Except BufError View × Mbuf) := do
  let count := UInt64.ofNat slice.length
  let whole ← mul64 (.wrapped .product) size count
  let stop ← add64 (.wrapped .sum) offset whole
  if stop > m.len then
    let whole ← mul64 (.wrapped .product) size count
    let left ← sub64 (.wrapped .left) m.len offset
    pure (.error (.outOfBuffer whole left), m)
  else
    let dst ← dataAddress m offset
    let bytes := slice.flatMap Vector.toList
    leave (.stored dst bytes.length)
    let written := { m with bytes := put m.bytes dst bytes }
    let view ← readDataSlice written size offset count
    pure (view, written)

inductive FromBytesError where
  | noBuf
  | buf (e : BufError)
  deriving DecidableEq, Repr

/- `alloc` is what the pool gives, and the second result the buffer that an early return
drops. -/
def fromBytes (alloc : Option Mbuf) (data : List UInt8) :
    Noted Note (Except FromBytesError Mbuf × Option Mbuf) :=
  match alloc with
  | none => pure (.error .noBuf, none)
  | some mbuf => do
    let (extended, mbuf) ← extend mbuf 0 (UInt64.ofNat data.length)
    match extended with
    | .error e => pure (.error (.buf e), some mbuf)
    | .ok () =>
      let (written, mbuf) ← writeDataSlice mbuf 1 0 (data.map (Vector.replicate _))
      match written with
      | .error e => pure (.error (.buf e), some mbuf)
      | .ok _ => pure (.ok mbuf, none)

structure Wf (m : Mbuf) : Prop where
  fits : m.dataOff.toNat + m.dataLen.toNat ≤ m.bufLen.toNat
  same : m.pktLen.toNat = m.dataLen.toNat

@[simp] theorem lenNat (m : Mbuf) : m.len.toNat = m.dataLen.toNat := by simp [len]

theorem geLen {m : Mbuf} {w : UInt64} : w ≥ m.len ↔ m.dataLen.toNat ≤ w.toNat := by
  rw [ge_iff_le, UInt64.le_iff_toNat_le, lenNat]

theorem gtLen {m : Mbuf} {w : UInt64} : w > m.len ↔ m.dataLen.toNat < w.toNat := by
  rw [gt_iff_lt, UInt64.lt_iff_toNat_lt, lenNat]

theorem notMoreNat {w : UInt64} (idle : ¬ w > 0) : w.toNat = 0 := by
  simp only [gt_iff_lt, UInt64.lt_iff_toNat_lt, UInt64.toNat_zero] at idle
  omega

theorem tailroomExact {m : Mbuf} (wf : Wf m) : ∃ room, tailroom m = ⟨room, []⟩ ∧
    room.toNat = m.bufLen.toNat - m.dataOff.toNat - m.dataLen.toNat := by
  have fits := wf.fits
  obtain ⟨first, behind⟩ := sub16Exact (Note.wrapped .tailroom) m.bufLen m.dataOff (by omega)
  obtain ⟨second, value⟩ := sub16Exact (Note.wrapped .tailroom) (m.bufLen - m.dataOff) m.dataLen (by omega)
  exists (m.bufLen - m.dataOff - m.dataLen).toUInt64
  constructor
  · simp only [tailroom, first, second, bindEq, pureEq, List.append_nil]
  · rw [UInt16.toNat_toUInt64, value, behind]

theorem addressExact (m : Mbuf) (offset : UInt64) (small : offset.toNat < 2 ^ 62) :
    dataAddress m offset = ⟨(m.dataOff.toNat + offset.toNat : Nat), []⟩ := by
  have low := m.dataOff.toNat_lt
  have head : m.dataOff.toUInt64.toInt64.toInt = m.dataOff.toNat := by
    rw [toIntOfSmall (by rw [UInt16.toNat_toUInt64]; omega), UInt16.toNat_toUInt64]
  have tail : offset.toInt64.toInt = offset.toNat := toIntOfSmall (by omega)
  obtain ⟨sum, value⟩ := addI64Exact (Note.wrapped .address) m.dataOff.toUInt64.toInt64
    offset.toInt64 (by rw [head, tail]; omega)
  rw [head, tail] at value
  simp only [dataAddress, sum, value, bindEq, pureEq, List.append_nil, Nat.cast_add]

/- What one call may do to a well-formed buffer. A note lies inside when the access it
records does; the only difference that may wrap is the one reported in an error value. -/
def Note.Inside (first stop : Int) : Note → Prop
  | .wrapped site => site = .left
  | .moved src dst count => first ≤ src ∧ src + count ≤ stop ∧ first ≤ dst ∧ dst + count ≤ stop
  | .stored dst count => first ≤ dst ∧ dst + count ≤ stop

structure Kept (m after : Mbuf) (notes : List Note) : Prop where
  wf : Wf after
  bufLen : after.bufLen = m.bufLen
  dataOff : after.dataOff = m.dataOff
  frame : ∀ a : Int, a < m.dataOff.toNat ∨
      m.dataOff.toNat + max m.dataLen.toNat after.dataLen.toNat ≤ a → after.bytes a = m.bytes a
  inside : ∀ note ∈ notes,
    note.Inside m.dataOff.toNat (m.dataOff.toNat + max m.dataLen.toNat after.dataLen.toNat : Nat)

theorem keptSame {m : Mbuf} (wf : Wf m) {notes : List Note}
    (quiet : ∀ note ∈ notes, note = .wrapped .left) : Kept m m notes where
  wf := wf
  bufLen := rfl
  dataOff := rfl
  frame _ _ := rfl
  inside note member := by
    cases quiet note member
    rfl

def shifted (m : Mbuf) (src dst count : Nat) (dataLen : UInt16) (pktLen : UInt32) : Mbuf :=
  { m with dataLen, pktLen, bytes := move m.bytes (m.dataOff.toNat + src : Nat) (m.dataOff.toNat + dst : Nat) count }

theorem keptShifted {m : Mbuf} {src dst count : Nat} {dataLen : UInt16} {pktLen : UInt32} {notes : List Note}
    (fits : m.dataOff.toNat + dataLen.toNat ≤ m.bufLen.toNat) (same : pktLen.toNat = dataLen.toNat)
    (source : src + count ≤ max m.dataLen.toNat dataLen.toNat)
    (target : dst + count ≤ max m.dataLen.toNat dataLen.toNat)
    (only : ∀ note ∈ notes, note = .moved (m.dataOff.toNat + src : Nat) (m.dataOff.toNat + dst : Nat) count) :
    Kept m (shifted m src dst count dataLen pktLen) notes where
  wf := ⟨fits, same⟩
  bufLen := rfl
  dataOff := rfl
  frame a outside := by
    apply moveOutside
    simp only [shifted] at outside
    omega
  inside note member := by
    cases only note member
    simp only [Note.Inside, shifted]
    omega

theorem shiftedNone (m : Mbuf) (src dst : Nat) (dataLen : UInt16) (pktLen : UInt32) :
    shifted m src dst 0 dataLen pktLen = { m with dataLen, pktLen } := by
  simp [shifted]

theorem extendFits {m : Mbuf} {offset len : UInt64} (wf : Wf m) (positive : 0 < len.toNat)
    (reach : offset.toNat ≤ m.dataLen.toNat)
    (room : m.dataOff.toNat + m.dataLen.toNat + len.toNat ≤ m.bufLen.toNat) :
    ∃ notes, extend m offset len = ⟨(.ok (), shifted m offset.toNat (offset.toNat + len.toNat)
        (m.dataLen.toNat - offset.toNat) (m.dataLen + len.toUInt16) (m.pktLen + len.toUInt32)), notes⟩ ∧
      (∀ note ∈ notes, note = .moved (m.dataOff.toNat + offset.toNat : Nat)
        (m.dataOff.toNat + (offset.toNat + len.toNat) : Nat) (m.dataLen.toNat - offset.toNat)) ∧
      (m.dataLen + len.toUInt16).toNat = m.dataLen.toNat + len.toNat ∧
      (m.pktLen + len.toUInt32).toNat = m.dataLen.toNat + len.toNat := by
  have bound := m.bufLen.toNat_lt
  have len16 : len.toUInt16.toNat = len.toNat := toUInt16OfSmall (by omega)
  have len32 : len.toUInt32.toNat = len.toNat := toUInt32OfSmall (by omega)
  obtain ⟨space, spaceEq, spaceVal⟩ := tailroomExact wf
  obtain ⟨copyEq, copyVal⟩ := sub64Exact (Note.wrapped .toCopy) m.len offset (by rw [lenNat]; exact reach)
  obtain ⟨sumEq, sumVal⟩ := add64Exact (Note.wrapped .sum) offset len (by omega)
  obtain ⟨dataEq, dataVal⟩ := add16Exact (Note.wrapped .dataLen) m.dataLen len.toUInt16 (by omega)
  obtain ⟨pktEq, pktVal⟩ := add32Exact (Note.wrapped .pktLen) m.pktLen len.toUInt32 (by rw [wf.same]; omega)
  have srcEq := addressExact m offset (by omega)
  have dstEq := addressExact m (offset + len) (by omega)
  rw [lenNat] at copyVal
  rw [sumVal] at dstEq
  have asked : ¬ (len ≤ 0 ∨ offset > m.len) := by
    simp only [UInt64.le_iff_toNat_le, gt_iff_lt, UInt64.lt_iff_toNat_lt, lenNat, UInt64.toNat_zero]
    omega
  have enough : ¬ len > space := by
    simp only [gt_iff_lt, UInt64.lt_iff_toNat_lt]
    omega
  rw [len16] at dataVal
  rw [len32, wf.same] at pktVal
  simp only [extend, if_neg asked, spaceEq, if_neg enough, copyEq, bindEq, pureEq]
  by_cases more : m.len - offset > 0
  · simp only [if_pos more, sumEq, srcEq, dstEq, ptrCopy, leave, bindEq, pureEq, dataEq, pktEq, copyVal]
    exact ⟨_, rfl, by simp, dataVal, pktVal⟩
  · have none : m.dataLen.toNat - offset.toNat = 0 := copyVal.symm.trans (notMoreNat more)
    simp only [if_neg more, dataEq, pktEq, none, shiftedNone]
    exact ⟨_, rfl, by simp, dataVal, pktVal⟩

theorem extendRefuses {m : Mbuf} {offset len : UInt64} (wf : Wf m)
    (refused : ¬ (0 < len.toNat ∧ offset.toNat ≤ m.dataLen.toNat ∧
      m.dataOff.toNat + m.dataLen.toNat + len.toNat ≤ m.bufLen.toNat)) :
    extend m offset len = ⟨(.error .notResized, m), []⟩ := by
  have fits := wf.fits
  obtain ⟨space, spaceEq, spaceVal⟩ := tailroomExact wf
  unfold extend
  split
  · rfl
  · have enough : len > space := by
      simp_all only [UInt64.le_iff_toNat_le, gt_iff_lt, UInt64.lt_iff_toNat_lt, lenNat, UInt64.toNat_zero]
      omega
    simp only [spaceEq, if_pos enough, bindEq, pureEq, List.append_nil]

theorem extendKept {m : Mbuf} (wf : Wf m) (offset len : UInt64) :
    Kept m (extend m offset len).val.2 (extend m offset len).notes := by
  by_cases ok : 0 < len.toNat ∧ offset.toNat ≤ m.dataLen.toNat ∧
      m.dataOff.toNat + m.dataLen.toNat + len.toNat ≤ m.bufLen.toNat
  · obtain ⟨positive, reach, room⟩ := ok
    obtain ⟨notes, same, only, dataVal, pktVal⟩ := extendFits wf positive reach room
    rw [same]
    apply keptShifted _ _ _ _ only <;> omega
  · rw [extendRefuses wf ok]
    exact keptSame wf (by simp)

theorem shrinkFits {m : Mbuf} {offset len : UInt64} (wf : Wf m) (positive : 0 < len.toNat)
    (reach : offset.toNat + len.toNat ≤ m.dataLen.toNat) :
    ∃ notes, shrink m offset len = ⟨(.ok (), shifted m (offset.toNat + len.toNat) offset.toNat
        (m.dataLen.toNat - offset.toNat - len.toNat) (m.dataLen - len.toUInt16)
        (m.pktLen - len.toUInt32)), notes⟩ ∧
      (∀ note ∈ notes, note = .moved (m.dataOff.toNat + (offset.toNat + len.toNat) : Nat)
        (m.dataOff.toNat + offset.toNat : Nat) (m.dataLen.toNat - offset.toNat - len.toNat)) ∧
      (m.dataLen - len.toUInt16).toNat = m.dataLen.toNat - len.toNat ∧
      (m.pktLen - len.toUInt32).toNat = m.dataLen.toNat - len.toNat := by
  have bound := m.dataLen.toNat_lt
  have len16 : len.toUInt16.toNat = len.toNat := toUInt16OfSmall (by omega)
  have len32 : len.toUInt32.toNat = len.toNat := toUInt32OfSmall (by omega)
  obtain ⟨sumEq, sumVal⟩ := add64Exact (Note.wrapped .sum) offset len (by omega)
  obtain ⟨behindEq, behindVal⟩ := sub64Exact (Note.wrapped .toCopy) m.len offset (by rw [lenNat]; omega)
  rw [lenNat] at behindVal
  obtain ⟨copyEq, copyVal⟩ := sub64Exact (Note.wrapped .toCopy) (m.len - offset) len (by omega)
  obtain ⟨dataEq, dataVal⟩ := sub16Exact (Note.wrapped .dataLen) m.dataLen len.toUInt16 (by omega)
  obtain ⟨pktEq, pktVal⟩ := sub32Exact (Note.wrapped .pktLen) m.pktLen len.toUInt32 (by rw [wf.same]; omega)
  have srcEq := addressExact m (offset + len) (by omega)
  have dstEq := addressExact m offset (by omega)
  rw [behindVal] at copyVal
  rw [sumVal] at srcEq
  rw [len16] at dataVal
  rw [len32, wf.same] at pktVal
  have asked : ¬ len ≤ 0 := by
    simp only [UInt64.le_iff_toNat_le, UInt64.toNat_zero]
    omega
  have within : ¬ offset + len > m.len := by
    simp only [gtLen, sumVal]
    omega
  simp only [shrink, if_neg asked, sumEq, if_neg within, behindEq, copyEq, bindEq, pureEq]
  by_cases more : m.len - offset - len > 0
  · simp only [if_pos more, srcEq, dstEq, ptrCopy, leave, bindEq, pureEq, dataEq, pktEq, copyVal]
    exact ⟨_, rfl, by simp, dataVal, pktVal⟩
  · have none : m.dataLen.toNat - offset.toNat - len.toNat = 0 := copyVal.symm.trans (notMoreNat more)
    simp only [if_neg more, dataEq, pktEq, none, shiftedNone]
    exact ⟨_, rfl, by simp, dataVal, pktVal⟩

theorem shrinkRefuses {m : Mbuf} {offset len : UInt64} (small : offset.toNat + len.toNat < 2 ^ 64)
    (refused : ¬ (0 < len.toNat ∧ offset.toNat + len.toNat ≤ m.dataLen.toNat)) :
    shrink m offset len = ⟨(.error .notResized, m), []⟩ := by
  obtain ⟨sumEq, sumVal⟩ := add64Exact (Note.wrapped .sum) offset len small
  unfold shrink
  split
  · rfl
  · have beyond : offset + len > m.len := by
      simp_all only [UInt64.le_iff_toNat_le, gt_iff_lt, UInt64.lt_iff_toNat_lt, lenNat, UInt64.toNat_zero]
      omega
    simp only [sumEq, if_pos beyond, bindEq, pureEq, List.append_nil]

theorem shrinkKept {m : Mbuf} (wf : Wf m) (offset len : UInt64)
    (small : offset.toNat + len.toNat < 2 ^ 64) :
    Kept m (shrink m offset len).val.2 (shrink m offset len).notes := by
  by_cases ok : 0 < len.toNat ∧ offset.toNat + len.toNat ≤ m.dataLen.toNat
  · have fits := wf.fits
    obtain ⟨notes, same, only, dataVal, pktVal⟩ := shrinkFits wf ok.1 ok.2
    rw [same]
    apply keptShifted _ _ _ _ only <;> omega
  · rw [shrinkRefuses small ok]
    exact keptSame wf (by simp)

theorem resizeKept {m : Mbuf} (wf : Wf m) (offset : UInt64) (len : Int64)
    (small : len < 0 → len ≠ Int64.minValue ∧ offset.toNat + (-len.toInt).toNat < 2 ^ 64) :
    Kept m (resize m offset len).val.2 (resize m offset len).notes := by
  unfold resize
  split
  · rename_i negative
    obtain ⟨least, sum⟩ := small negative
    obtain ⟨negEq, negVal⟩ := negI64Exact (Note.wrapped .negation) len least
    have below : len.toInt < 0 := Int64.lt_iff_toInt_lt.mp negative
    have less : (-len).toUInt64.toNat = (-len.toInt).toNat := toUInt64OfNonneg (by omega)
    simp only [negEq, bindEq, List.nil_append]
    exact shrinkKept wf offset _ (by omega)
  · exact extendKept wf offset _

theorem truncateKept {m : Mbuf} (wf : Wf m) (toLen : UInt64) :
    Kept m (truncate m toLen).val.2 (truncate m toLen).notes := by
  unfold truncate
  split
  · exact keptSame wf (by simp)
  · rename_i less
    have fits := wf.fits
    have bound := m.dataLen.toNat_lt
    simp only [geLen] at less
    have cut := shiftedNone m 0 0 toLen.toUInt16 toLen.toUInt32
    simp only [pureEq, ← cut]
    have len16 : toLen.toUInt16.toNat = toLen.toNat := toUInt16OfSmall (by omega)
    have len32 : toLen.toUInt32.toNat = toLen.toNat := toUInt32OfSmall (by omega)
    apply keptShifted
    · omega
    · omega
    all_goals simp

theorem readQuiet (m : Mbuf) (size offset count : UInt64)
    (product : size.toNat * count.toNat < 2 ^ 64)
    (sum : offset.toNat + size.toNat * count.toNat < 2 ^ 64) :
    (readDataSlice m size offset count).notes = [] := by
  have bound := m.dataLen.toNat_lt
  obtain ⟨mulEq, mulVal⟩ := mul64Exact (Note.wrapped .product) size count product
  obtain ⟨sumEq, sumVal⟩ := add64Exact (Note.wrapped .sum) offset (size * count) (by omega)
  unfold readDataSlice
  split
  · rfl
  · rename_i start
    simp only [geLen] at start
    obtain ⟨leftEq, leftVal⟩ := sub64Exact (Note.wrapped .left) m.len offset (by rw [lenNat]; omega)
    simp only [mulEq, sumEq, leftEq, bindEq, pureEq]
    split
    · rfl
    · rw [addressExact m offset (by omega)]
      rfl

theorem sliceBytes {size : Nat} (slice : List (Vector UInt8 size)) :
    (slice.flatMap Vector.toList).length = size * slice.length := by
  induction slice with
  | nil => rfl
  | cons head rest ih =>
    simp only [List.flatMap_cons, List.length_append, Vector.length_toList, ih, List.length_cons, Nat.mul_succ]
    omega

theorem writeKept {m : Mbuf} (wf : Wf m) (size offset : UInt64) (slice : List (Vector UInt8 size.toNat))
    (small : offset.toNat + size.toNat * slice.length < 2 ^ 64) :
    Kept m (writeDataSlice m size offset slice).val.2 (writeDataSlice m size offset slice).notes := by
  have bound := m.dataLen.toNat_lt
  have whole := mulOfNat size.toNat slice.length (by omega)
  have length := sliceBytes slice
  obtain ⟨mulEq, mulVal⟩ := mul64Exact (Note.wrapped .product) size (UInt64.ofNat slice.length) (by omega)
  obtain ⟨sumEq, sumVal⟩ := add64Exact (Note.wrapped .sum) offset (size * UInt64.ofNat slice.length) (by omega)
  simp only [writeDataSlice, mulEq, sumEq, bindEq, pureEq]
  split
  · apply keptSame wf
    simpa using sub64Notes (Note.wrapped .left) m.len offset
  · rename_i within
    simp only [gtLen] at within
    simp only [addressExact m offset (by omega)]
    constructor
    case wf => exact ⟨wf.fits, wf.same⟩
    case bufLen => rfl
    case dataOff => rfl
    case frame =>
      intro a outside
      apply putOutside
      dsimp only at outside
      omega
    case inside =>
      intro note member
      rw [readQuiet _ _ _ _ (by omega) (by omega)] at member
      simp only [leave, List.nil_append, List.append_nil, List.mem_singleton] at member
      subst member
      simp only [Note.Inside]
      omega

inductive Call where
  | extend (offset len : UInt64)
  | shrink (offset len : UInt64)
  | resize (offset : UInt64) (len : Int64)
  | truncate (toLen : UInt64)
  | writeDataSlice (size offset : UInt64) (slice : List (Vector UInt8 size.toNat))

structure Reply where
  result : Except BufError Unit
  notes : List Note

def reply {α : Type} (r : Noted Note (Except BufError α × Mbuf)) : Reply × Mbuf :=
  (⟨r.val.1.map (fun _ => ()), r.notes⟩, r.val.2)

def step (m : Mbuf) : Call → Reply × Mbuf
  | .extend offset len => reply (m.extend offset len)
  | .shrink offset len => reply (m.shrink offset len)
  | .resize offset len => reply (m.resize offset len)
  | .truncate toLen => reply (m.truncate toLen)
  | .writeDataSlice size offset slice => reply (m.writeDataSlice size offset slice)

/- No sum, product or negation of the arguments wraps. `extend` and `truncate` compare
before they compute, so they need nothing. -/
def ArgsSmall : Call → Prop
  | .extend _ _ => True
  | .shrink offset len => offset.toNat + len.toNat < 2 ^ 64
  | .resize offset len => len < 0 → len ≠ Int64.minValue ∧ offset.toNat + (-len.toInt).toNat < 2 ^ 64
  | .truncate _ => True
  | .writeDataSlice size offset slice => offset.toNat + size.toNat * slice.length < 2 ^ 64

theorem stepKept {m : Mbuf} (wf : Wf m) (c : Call) (small : ArgsSmall c) :
    Kept m (step m c).2 (step m c).1.notes := by
  cases c with
  | extend offset len => exact extendKept wf offset len
  | shrink offset len => exact shrinkKept wf offset len small
  | resize offset len => exact resizeKept wf offset len small
  | truncate toLen => exact truncateKept wf toLen
  | writeDataSlice size offset slice => exact writeKept wf size offset slice small

structure Later (m after : Mbuf) : Prop where
  wf : Wf after
  bufLen : after.bufLen = m.bufLen
  dataOff : after.dataOff = m.dataOff

theorem laterKept {m q after : Mbuf} {notes : List Note} (later : Later m q) (kept : Kept q after notes) :
    Later m after :=
  ⟨kept.wf, kept.bufLen.trans later.bufLen, kept.dataOff.trans later.dataOff⟩

theorem runLater {m : Mbuf} (wf : Wf m) (calls : List Call) (small : ∀ c ∈ calls, ArgsSmall c) :
    Later m (final step m calls) :=
  finalInvariant (Later m) (fun _ c ok later => laterKept later (stepKept later.wf c ok))
    ⟨wf, rfl, rfl⟩ calls small

theorem everyCallKeepsBuffer (m : Mbuf) (wf : Wf m) (past : List Call) (c : Call)
    (small : ∀ x ∈ past ++ [c], ArgsSmall x) :
    Later m (step (final step m past) c).2 ∧
      Kept (final step m past) (step (final step m past) c).2 (step (final step m past) c).1.notes := by
  have before : Later m (final step m past) :=
    runLater wf past (fun x member => small x (List.mem_append_left _ member))
  have now := stepKept before.wf c (small c (by simp))
  exact ⟨laterKept before now, now⟩

def sample : Mbuf := ⟨8, 2, 3, 3, fun a => if a = 2 then 1 else 0⟩

def sampleCalls : List Call := [.extend 0 2, .shrink 9 9]

theorem everyCallKeepsBufferAtSample :
    (Later sample (step (final step sample sampleCalls) (.writeDataSlice 2 1 [#v[5, 6]])).2 ∧
      Kept (final step sample sampleCalls)
        (step (final step sample sampleCalls) (.writeDataSlice 2 1 [#v[5, 6]])).2
        (step (final step sample sampleCalls) (.writeDataSlice 2 1 [#v[5, 6]])).1.notes) ∧
      (step (final step sample sampleCalls) (.writeDataSlice 2 1 [#v[5, 6]])).2.bytes 3 = 5 :=
  ⟨everyCallKeepsBuffer sample ⟨by decide, by decide⟩ sampleCalls (.writeDataSlice 2 1 [#v[5, 6]])
    (by simp [sampleCalls, ArgsSmall]), by decide⟩

end Mbuf

end Vdp
