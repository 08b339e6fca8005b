import Vdp.Mbuf

/-! The data of an `Mbuf` as a list of bytes, and the four resizing calls as operations on
it. The list is the purpose; the buffer realises it by one overlapping move and two length
fields. Every call that reports an error leaves the whole buffer as it was. -/
namespace Vdp.Mbuf
open Lib.Bytes Lib.Wrap Lib.Words

def data (m : Mbuf) : List UInt8 := read m.bytes m.dataOff.toNat m.dataLen.toNat

@[simp] theorem dataLength (m : Mbuf) : (data m).length = m.dataLen.toNat := by simp [data]

def room (m : Mbuf) : Nat := m.bufLen.toNat - m.dataOff.toNat - m.dataLen.toNat

theorem roomOfFits {m : Mbuf} (wf : Wf m) (n : Nat) :
    m.dataOff.toNat + m.dataLen.toNat + n ≤ m.bufLen.toNat ↔ n ≤ room m := by
  have fits := wf.fits
  simp only [room]
  omega

theorem extendedData {m : Mbuf} {offset len : Nat} {dataLen : UInt16} {pktLen : UInt32}
    (reach : offset ≤ m.dataLen.toNat) (grown : dataLen.toNat = m.dataLen.toNat + len) :
    (data (shifted m offset (offset + len) (m.dataLen.toNat - offset) dataLen pktLen)).take offset =
        (data m).take offset ∧
      (data (shifted m offset (offset + len) (m.dataLen.toNat - offset) dataLen pktLen)).drop (offset + len) =
        (data m).drop offset := by
  simp only [data, shifted, grown]
  constructor
  · rw [readTake _ _ (by omega), readTake _ _ reach]
    exact readBeside (by omega)
  · rw [readDrop _ _ (by omega), readDrop _ _ reach]
    rw [show m.dataLen.toNat + len - (offset + len) = m.dataLen.toNat - offset by omega]
    rw [← Nat.cast_add, ← Nat.cast_add]
    exact readMoved _ _ _ _

theorem shrunkData {m : Mbuf} {offset len : Nat} {dataLen : UInt16} {pktLen : UInt32}
    (reach : offset + len ≤ m.dataLen.toNat) (less : dataLen.toNat = m.dataLen.toNat - len) :
    data (shifted m (offset + len) offset (m.dataLen.toNat - offset - len) dataLen pktLen) =
      (data m).take offset ++ (data m).drop (offset + len) := by
  simp only [data, shifted, less]
  rw [readTake _ _ (by omega), readDrop _ _ reach]
  rw [show m.dataLen.toNat - len = offset + (m.dataLen.toNat - (offset + len)) by omega, readAppend,
    show m.dataLen.toNat - offset - len = m.dataLen.toNat - (offset + len) by omega]
  congr 1
  · exact readBeside (by omega)
  · rw [← Nat.cast_add, ← Nat.cast_add]
    exact readMoved _ _ _ _

structure Refines (m : Mbuf) (fits : Prop) (wanted : List UInt8 → Prop) (r : Except BufError Unit × Mbuf) :
    Prop where
  ok : r.1 = .ok () ↔ fits
  data : fits → wanted (data r.2)
  refused : ¬ fits → r = (.error .notResized, m)
  unchanged : ∀ e, r.1 = .error e → r.2 = m

theorem refinesOf {m : Mbuf} {fits : Prop} {wanted : List UInt8 → Prop} {r : Except BufError Unit × Mbuf}
    (done : fits → r.1 = .ok () ∧ wanted (data r.2)) (refused : ¬ fits → r = (.error .notResized, m)) :
    Refines m fits wanted r where
  ok := by
    constructor
    · intro ok
      by_contra not
      rw [refused not] at ok
      cases ok
    · intro yes
      exact (done yes).1
  data yes := (done yes).2
  refused := refused
  unchanged e error := by
    by_cases yes : fits
    · rw [(done yes).1] at error
      cases error
    · rw [refused yes]

structure Extended (before : List UInt8) (offset len : Nat) (after : List UInt8) : Prop where
  length : after.length = before.length + len
  front : after.take offset = before.take offset
  behind : after.drop (offset + len) = before.drop offset

def Extendable (m : Mbuf) (offset len : Nat) : Prop := 0 < len ∧ len ≤ room m ∧ offset ≤ (data m).length

def Shrinkable (m : Mbuf) (offset len : Nat) : Prop := 0 < len ∧ offset + len ≤ (data m).length

theorem extendRefines {m : Mbuf} (wf : Wf m) (offset len : UInt64) :
    Refines m (Extendable m offset.toNat len.toNat) (Extended (data m) offset.toNat len.toNat)
      (extend m offset len).val := by
  apply refinesOf
  · intro ⟨positive, space, reach⟩
    rw [dataLength] at reach
    obtain ⟨notes, same, _, dataVal, _⟩ := extendFits wf positive reach ((roomOfFits wf _).mpr space)
    obtain ⟨front, behind⟩ := extendedData reach dataVal
    rw [same]
    exact ⟨rfl, by rw [dataLength, dataLength]; exact dataVal, front, behind⟩
  · intro not
    rw [extendRefuses wf]
    rw [roomOfFits wf]
    intro ⟨positive, reach, space⟩
    exact not ⟨positive, space, by rw [dataLength]; exact reach⟩

theorem shrinkRefines {m : Mbuf} (wf : Wf m) (offset len : UInt64)
    (small : offset.toNat + len.toNat < 2 ^ 64) :
    Refines m (Shrinkable m offset.toNat len.toNat)
      (· = (data m).take offset.toNat ++ (data m).drop (offset.toNat + len.toNat))
      (shrink m offset len).val := by
  apply refinesOf
  · intro ⟨positive, reach⟩
    rw [dataLength] at reach
    obtain ⟨notes, same, _, dataVal, _⟩ := shrinkFits wf positive reach
    rw [same]
    exact ⟨rfl, shrunkData reach dataVal⟩
  · intro not
    rw [shrinkRefuses small]
    intro ⟨positive, reach⟩
    exact not ⟨positive, by rw [dataLength]; exact reach⟩

theorem truncateRefines {m : Mbuf} (toLen : UInt64) :
    Refines m (toLen.toNat < (data m).length) (· = (data m).take toLen.toNat) (truncate m toLen).val := by
  have bound := m.dataLen.toNat_lt
  apply refinesOf
  · intro less
    rw [dataLength] at less
    have inside : ¬ toLen ≥ m.len := by
      simpa only [geLen, not_le] using less
    have len16 : toLen.toUInt16.toNat = toLen.toNat := toUInt16OfSmall (by omega)
    simp only [truncate, if_neg inside, pureEq, data, len16]
    exact ⟨trivial, (readTake _ _ less.le).symm⟩
  · intro not
    rw [dataLength] at not
    have beyond : toLen ≥ m.len := by
      simpa only [geLen, not_lt] using not
    simp only [truncate, if_pos beyond, pureEq]

/- The tail behind the cut is empty, so `shrink` moves nothing. -/
theorem truncateShrinks {m : Mbuf} (wf : Wf m) {toLen : UInt64} (less : toLen.toNat < m.dataLen.toNat) :
    (truncate m toLen).val = (shrink m toLen (m.len - toLen)).val := by
  have bound := m.dataLen.toNat_lt
  have inside : ¬ toLen ≥ m.len := by
    simpa only [geLen, not_le] using less
  have cut : (m.len - toLen).toNat = m.dataLen.toNat - toLen.toNat := by
    rw [UInt64.toNat_sub_of_le _ _ (UInt64.le_iff_toNat_le.mpr (by rw [lenNat]; omega)), lenNat]
  have len16 : toLen.toUInt16.toNat = toLen.toNat := toUInt16OfSmall (by omega)
  have len32 : toLen.toUInt32.toNat = toLen.toNat := toUInt32OfSmall (by omega)
  obtain ⟨notes, same, _, dataVal, pktVal⟩ := shrinkFits wf (show 0 < (m.len - toLen).toNat by omega)
    (show toLen.toNat + (m.len - toLen).toNat ≤ m.dataLen.toNat by omega)
  have data16 : m.dataLen - (m.len - toLen).toUInt16 = toLen.toUInt16 := UInt16.toNat.inj (by omega)
  have pkt32 : m.pktLen - (m.len - toLen).toUInt32 = toLen.toUInt32 := UInt32.toNat.inj (by omega)
  have none : m.dataLen.toNat - toLen.toNat - (m.len - toLen).toNat = 0 := by omega
  rw [same, data16, pkt32, none, shiftedNone]
  simp only [truncate, if_neg inside, pureEq]

/- The magnitude of a negative `isize`. That of the least one is right too: its negation
wraps to itself, and the cast to `usize` reads it as `2^63`. -/
theorem negatedNat {k : Int64} (negative : k < 0) : (-k).toUInt64.toNat = (-k.toInt).toNat := by
  by_cases least : k = Int64.minValue
  · subst least
    decide
  · obtain ⟨_, value⟩ := negI64Exact (Note.wrapped .negation) k least
    have below : k.toInt < 0 := Int64.lt_iff_toInt_lt.mp negative
    exact toUInt64OfNonneg (by omega)

theorem resizeShrinks (m : Mbuf) (offset : UInt64) {k : Int64} (negative : k < 0) :
    (resize m offset k).val = (shrink m offset (-k).toUInt64).val ∧
      (resize m offset k).notes =
        (negI64 (Note.wrapped .negation) k).notes ++ (shrink m offset (-k).toUInt64).notes := by
  simp only [resize, if_pos negative, bindEq, negI64, checked, and_self]

theorem resizeExtends (m : Mbuf) (offset : UInt64) {k : Int64} (positive : ¬ k < 0) :
    resize m offset k = extend m offset k.toUInt64 := by
  simp only [resize, if_neg positive]

theorem resizeUnchanged {m : Mbuf} (wf : Wf m) (offset : UInt64) (k : Int64)
    (small : ArgsSmall (.resize offset k)) (e : BufError) (error : (resize m offset k).val.1 = .error e) :
    (resize m offset k).val.2 = m := by
  by_cases negative : k < 0
  · have sum : offset.toNat + (-k).toUInt64.toNat < 2 ^ 64 := by
      rw [negatedNat negative]
      exact (small negative).2
    rw [(resizeShrinks m offset negative).1] at error ⊢
    exact (shrinkRefines wf offset _ sum).unchanged e error
  · rw [resizeExtends m offset negative] at error ⊢
    exact (extendRefines wf offset _).unchanged e error

theorem shrinkUndoesExtend {before after : List UInt8} {offset len : Nat} (grown : Extended before offset len after) :
    after.take offset ++ after.drop (offset + len) = before := by
  rw [grown.front, grown.behind, List.take_append_drop]

structure Restored (m after : Mbuf) : Prop where
  data : data after = data m
  dataLen : after.dataLen = m.dataLen
  pktLen : after.pktLen = m.pktLen

theorem shrinkRestores {m : Mbuf} (wf : Wf m) {offset len : UInt64} (done : (extend m offset len).val.1 = .ok ()) :
    (shrink (extend m offset len).val.2 offset len).val.1 = .ok () ∧
      Restored m (shrink (extend m offset len).val.2 offset len).val.2 := by
  have refines := extendRefines wf offset len
  have fits := refines.ok.mp done
  have grown := refines.data fits
  have long := grown.length
  rw [dataLength, dataLength] at long
  obtain ⟨positive, space, reach⟩ := fits
  have wf' := (extendKept wf offset len).wf
  rw [dataLength] at reach
  have within : offset.toNat + len.toNat ≤ (extend m offset len).val.2.dataLen.toNat := by omega
  obtain ⟨notes, same, _, dataVal, pktVal⟩ := shrinkFits wf' positive within
  rw [same]
  refine ⟨rfl, ?_, UInt16.toNat.inj ?_, UInt32.toNat.inj ?_⟩
  · exact (shrunkData within dataVal).trans (shrinkUndoesExtend grown)
  · exact dataVal.trans (by omega)
  · exact pktVal.trans (by rw [wf.same]; omega)

theorem resizeRestores {m : Mbuf} (wf : Wf m) {offset : UInt64} {k : Int64} (positive : 0 < k)
    (done : (resize m offset k).val.1 = .ok ()) :
    (resize (resize m offset k).val.2 offset (-k)).val.1 = .ok () ∧
      Restored m (resize (resize m offset k).val.2 offset (-k)).val.2 := by
  have above : 0 < k.toInt := Int64.lt_iff_toInt_lt.mp positive
  have grows : ¬ k < 0 := by
    rw [Int64.lt_iff_toInt_lt]
    exact not_lt.mpr above.le
  have least : k ≠ Int64.minValue := by
    rintro rfl
    revert above
    decide
  obtain ⟨_, value⟩ := negI64Exact (Note.wrapped .negation) k least
  have shrinks : -k < 0 := by
    rw [Int64.lt_iff_toInt_lt, value]
    exact neg_lt_zero.mpr above
  rw [resizeExtends m offset grows] at done ⊢
  rw [(resizeShrinks _ offset shrinks).1, Int64.neg_neg]
  exact shrinkRestores wf done

theorem resizingRefinesData (m : Mbuf) (wf : Wf m) :
    (∀ offset len, Refines m (Extendable m offset.toNat len.toNat) (Extended (data m) offset.toNat len.toNat)
        (extend m offset len).val) ∧
      (∀ offset len, offset.toNat + len.toNat < 2 ^ 64 → Refines m (Shrinkable m offset.toNat len.toNat)
        (· = (data m).take offset.toNat ++ (data m).drop (offset.toNat + len.toNat)) (shrink m offset len).val) ∧
      (∀ toLen, Refines m (toLen.toNat < (data m).length) (· = (data m).take toLen.toNat) (truncate m toLen).val ∧
        (toLen.toNat < (data m).length → (truncate m toLen).val = (shrink m toLen (m.len - toLen)).val)) ∧
      (∀ offset k, 0 < k → (resize m offset k).val.1 = .ok () →
        (resize (resize m offset k).val.2 offset (-k)).val.1 = .ok () ∧
          Restored m (resize (resize m offset k).val.2 offset (-k)).val.2) ∧
      (∀ offset k, ArgsSmall (.resize offset k) → ∀ e, (resize m offset k).val.1 = .error e →
        (resize m offset k).val.2 = m) := by
  refine ⟨extendRefines wf, shrinkRefines wf, ?_, ?_, resizeUnchanged wf⟩
  · intro toLen
    refine ⟨truncateRefines toLen, ?_⟩
    rw [dataLength]
    exact truncateShrinks wf
  · intro offset k positive done
    exact resizeRestores wf positive done

theorem resizingRefinesDataAtSample :
    Refines sample (Extendable sample 1 2) (Extended [1, 0, 0] 1 2) (extend sample 1 2).val ∧
      Refines sample (Shrinkable sample 0 1) (· = [0, 0]) (shrink sample 0 1).val ∧
      Restored sample (resize (resize sample 0 3).val.2 0 (-3)).val.2 :=
  have spec := resizingRefinesData sample ⟨by decide, by decide⟩
  ⟨spec.1 1 2, spec.2.1 0 1 (by decide), (spec.2.2.2.1 0 3 (by decide) (by decide)).2⟩

end Vdp.Mbuf
