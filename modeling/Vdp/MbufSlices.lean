import Vdp.MbufData

/-! Slices of an `Mbuf`: which requests `read_data_slice` accepts, what the slice it hands
out denotes, and what `write_data_slice` leaves behind. The bound of the read compares the
end of the range with what is left behind its start, so it counts the offset twice. -/
namespace Vdp.Mbuf
open Lib.Bytes Lib.Wrap Lib.Words

def items (m : Mbuf) (size : UInt64) (view : View) : List (List UInt8) :=
  (List.range view.count.toNat).map (fun i => read m.bytes (view.address + (size.toNat * i : Nat)) size.toNat)

def storedItems (m : Mbuf) (size offset count : Nat) : List (List UInt8) :=
  (List.range count).map (fun i => ((data m).drop (offset + size * i)).take size)

def Readable (m : Mbuf) (size offset count : UInt64) : Prop :=
  ∃ view, (readDataSlice m size offset count).val = .ok view

def Hidden (m : Mbuf) (offset bytes : Nat) : Prop :=
  offset + bytes ≤ m.dataLen.toNat ∧ m.dataLen.toNat < offset + (offset + bytes)

theorem readSliceValue {m : Mbuf} {size offset count : UInt64} (inside : offset.toNat < m.dataLen.toNat)
    (small : offset.toNat + size.toNat * count.toNat < 2 ^ 64) :
    (readDataSlice m size offset count).val =
      if offset.toNat + (offset.toNat + size.toNat * count.toNat) ≤ m.dataLen.toNat then
        .ok ⟨(m.dataOff.toNat + offset.toNat : Nat), count⟩
      else .error (.outOfBuffer (size * count) (m.len - offset)) := by
  have bound := m.dataLen.toNat_lt
  obtain ⟨mulEq, mulVal⟩ := mul64Exact (Note.wrapped .product) size count (by omega)
  obtain ⟨sumEq, sumVal⟩ := add64Exact (Note.wrapped .sum) offset (size * count) (by omega)
  obtain ⟨leftEq, leftVal⟩ := sub64Exact (Note.wrapped .left) m.len offset (by rw [lenNat]; omega)
  have start : ¬ offset ≥ m.len := by
    simpa only [geLen, not_le] using inside
  have guard : offset + size * count > m.len - offset ↔
      ¬ offset.toNat + (offset.toNat + size.toNat * count.toNat) ≤ m.dataLen.toNat := by
    rw [gt_iff_lt, UInt64.lt_iff_toNat_lt, sumVal, mulVal, leftVal, lenNat]
    omega
  simp only [readDataSlice, if_neg start, mulEq, sumEq, leftEq, bindEq, pureEq,
    addressExact m offset (by omega)]
  by_cases granted : offset.toNat + (offset.toNat + size.toNat * count.toNat) ≤ m.dataLen.toNat
  · have passes : ¬ offset + size * count > m.len - offset := fun refused => guard.mp refused granted
    simp only [if_neg passes, if_pos granted]
  · simp only [if_pos (guard.mpr granted), if_neg granted]

theorem readableIff {m : Mbuf} {size offset count : UInt64} (inside : offset.toNat < m.dataLen.toNat)
    (small : offset.toNat + size.toNat * count.toNat < 2 ^ 64) :
    Readable m size offset count ↔
      offset.toNat + (offset.toNat + size.toNat * count.toNat) ≤ m.dataLen.toNat := by
  rw [Readable, readSliceValue inside small]
  split <;> simp_all

structure Accepts (m : Mbuf) (size offset count : UInt64) : Prop where
  ok : Readable m size offset count ↔ offset.toNat + size.toNat * count.toNat ≤ (data m).length
  items : ∀ view, (readDataSlice m size offset count).val = .ok view →
    items m size view = storedItems m size.toNat offset.toNat count.toNat

theorem viewItems {m : Mbuf} {size offset count : UInt64}
    (inside : offset.toNat + size.toNat * count.toNat ≤ m.dataLen.toNat) :
    items m size ⟨(m.dataOff.toNat + offset.toNat : Nat), count⟩ =
      storedItems m size.toNat offset.toNat count.toNat := by
  simp only [items, storedItems]
  apply List.map_congr_left
  intro i member
  have below : size.toNat * i + size.toNat ≤ size.toNat * count.toNat := by
    rw [← Nat.mul_succ]
    exact Nat.mul_le_mul_left _ (List.mem_range.mp member)
  rw [data, readDrop _ _ (by omega), readTake _ _ (by omega)]
  congr 1
  push_cast
  omega

theorem acceptsIff {m : Mbuf} {size offset count : UInt64} (inside : offset.toNat < m.dataLen.toNat)
    (small : offset.toNat + size.toNat * count.toNat < 2 ^ 64) :
    Accepts m size offset count ↔ ¬ Hidden m offset.toNat (size.toNat * count.toNat) := by
  have readable := readableIff inside small
  constructor
  · intro accepts ⟨within, beyond⟩
    have granted := accepts.ok.mpr (by rw [dataLength]; exact within)
    exact absurd (readable.mp granted) (by omega)
  · intro shown
    constructor
    case ok =>
      rw [readable, dataLength]
      simp only [Hidden] at shown
      omega
    case items =>
      intro view granted
      have within := readable.mp ⟨view, granted⟩
      rw [readSliceValue inside small, if_pos within] at granted
      cases granted
      exact viewItems (by omega)

theorem readDataOk {m : Mbuf} {size offset : UInt64} (inside : offset.toNat < m.dataLen.toNat)
    (small : offset.toNat + size.toNat < 2 ^ 64) :
    (∃ item, (readData m size offset).val = .ok item) ↔ offset.toNat + size.toNat ≤ m.dataLen.toNat := by
  have start : ¬ offset ≥ m.len := by
    simpa only [geLen, not_le] using inside
  obtain ⟨sumEq, sumVal⟩ := add64Exact (Note.wrapped .sum) offset size small
  simp only [readData, if_neg start, sumEq, bindEq, pureEq, gtLen, sumVal]
  split
  · rename_i refused
    simp [refused]
  · rename_i granted
    simpa using granted

/- The two readers disagree, and a part of a readable range is refused, at the same kind of
request: one that is in range but starts too late for the bound. -/
theorem slicesReadIffNotHidden (m : Mbuf) (size offset count : UInt64) (inside : offset.toNat < m.dataLen.toNat)
    (small : offset.toNat + size.toNat * count.toNat < 2 ^ 64) :
    (Accepts m size offset count ↔ ¬ Hidden m offset.toNat (size.toNat * count.toNat)) ∧
      (offset.toNat + size.toNat < 2 ^ 64 →
        ((Readable m size offset 1 ↔ ∃ item, (readData m size offset).val = .ok item) ↔
          ¬ Hidden m offset.toNat size.toNat)) ∧
      (Readable m size offset count → ∀ offset' count' : UInt64, offset.toNat ≤ offset'.toNat →
        offset'.toNat < m.dataLen.toNat →
        offset'.toNat + size.toNat * count'.toNat ≤ offset.toNat + size.toNat * count.toNat →
        (Readable m size offset' count' ↔ ¬ Hidden m offset'.toNat (size.toNat * count'.toNat))) := by
  refine ⟨acceptsIff inside small, ?_, ?_⟩
  · intro one
    have single : size.toNat * (1 : UInt64).toNat = size.toNat := by simp
    rw [readableIff inside (by omega), readDataOk inside one, single]
    simp only [Hidden]
    omega
  · intro granted offset' count' _ inside' part
    have whole := (readableIff inside small).mp granted
    rw [readableIff inside' (by omega)]
    simp only [Hidden]
    omega

theorem slicesReadIffNotHiddenAtSample :
    (Accepts sample 1 1 1 ↔ ¬ Hidden sample 1 1) ∧ Accepts sample 1 1 1 := by
  have exactly := (slicesReadIffNotHidden sample 1 1 1 (by decide) (by decide)).1
  exact ⟨exactly, exactly.mpr (by simp [Hidden, sample])⟩

theorem tailOfDataRefused :
    ¬ (∀ (m : Mbuf) (size offset count : UInt64), Wf m → 0 < size.toNat → offset.toNat < m.dataLen.toNat →
      offset.toNat + size.toNat * count.toNat < 2 ^ 64 → Accepts m size offset count) := by
  intro every
  have accepts := every sample 1 1 2 ⟨by decide, by decide⟩ (by decide) (by decide) (by decide)
  exact (acceptsIff (by decide) (by decide)).mp accepts (by simp [Hidden, sample])

structure ByteSlice where
  bytes : List UInt8
  bounded : bytes.length < 2 ^ 63

def ByteSlice.count (slice : ByteSlice) : UInt64 := UInt64.ofNat slice.bytes.length

theorem countNat (slice : ByteSlice) : slice.count.toNat = slice.bytes.length := by
  have bounded := slice.bounded
  rw [ByteSlice.count, UInt64.toNat_ofNat']
  omega

def writeBytes (m : Mbuf) (offset : UInt64) (slice : ByteSlice) : Noted Note (Except BufError View × Mbuf) :=
  writeDataSlice m 1 offset (slice.bytes.map (Vector.replicate _))

theorem byteItems (bytes : List UInt8) :
    (bytes.map (Vector.replicate (1 : UInt64).toNat)).flatMap Vector.toList = bytes := by
  induction bytes with
  | nil => rfl
  | cons b rest ih =>
    rw [List.map_cons, List.flatMap_cons, ih]
    rfl

def stored (m : Mbuf) (offset : Nat) (bytes : List UInt8) : Mbuf :=
  { m with bytes := put m.bytes (m.dataOff.toNat + offset : Nat) bytes }

theorem storedData {m : Mbuf} {offset : Nat} {bytes : List UInt8} (within : offset + bytes.length ≤ m.dataLen.toNat) :
    data (stored m offset bytes) = (data m).take offset ++ bytes ++ (data m).drop (offset + bytes.length) := by
  have split : m.dataLen.toNat = offset + (bytes.length + (m.dataLen.toNat - (offset + bytes.length))) := by omega
  have front : read (stored m offset bytes).bytes m.dataOff.toNat offset = (data m).take offset := by
    rw [data, readTake _ _ (by omega)]
    exact readPutBeside (.inl (by omega))
  have middle : read (stored m offset bytes).bytes (m.dataOff.toNat + offset : Nat) bytes.length = bytes :=
    readPut _ _ _
  have behind : read (stored m offset bytes).bytes (m.dataOff.toNat + offset + bytes.length : Nat)
      (m.dataLen.toNat - (offset + bytes.length)) = (data m).drop (offset + bytes.length) := by
    rw [data, readDrop _ _ within, ← Nat.cast_add, ← Nat.add_assoc]
    exact readPutBeside (.inr (by omega))
  calc data (stored m offset bytes)
      _ = read (stored m offset bytes).bytes m.dataOff.toNat
          (offset + (bytes.length + (m.dataLen.toNat - (offset + bytes.length)))) := by rw [← split]; rfl
      _ = (data m).take offset ++ bytes ++ (data m).drop (offset + bytes.length) := by
        rw [readAppend, readAppend, ← Nat.cast_add, ← Nat.cast_add, front, middle, behind, List.append_assoc]

/- Three outcomes: refused and nothing stored; stored and granted; stored and refused by the
read behind the copy. -/
theorem writeBytesValue {m : Mbuf} {offset : UInt64} (slice : ByteSlice) (reach : offset.toNat ≤ m.dataLen.toNat) :
    (writeBytes m offset slice).val =
      if offset.toNat + slice.bytes.length ≤ m.dataLen.toNat then
        ((readDataSlice (stored m offset.toNat slice.bytes) 1 offset slice.count).val,
          stored m offset.toNat slice.bytes)
      else (.error (.outOfBuffer (1 * slice.count) (m.len - offset)), m) := by
  have bound := m.dataLen.toNat_lt
  have small := slice.bounded
  have count := countNat slice
  have guard : offset + 1 * slice.count > m.len ↔
      ¬ offset.toNat + slice.bytes.length ≤ m.dataLen.toNat := by
    rw [gtLen, UInt64.one_mul, UInt64.toNat_add, count]
    omega
  have fold : UInt64.ofNat slice.bytes.length = slice.count := rfl
  simp only [writeBytes, writeDataSlice, List.length_map, byteItems, fold, mul64, add64, sub64, checked, bindEq, pureEq]
  by_cases within : offset.toNat + slice.bytes.length ≤ m.dataLen.toNat
  · have passes : ¬ offset + 1 * slice.count > m.len := fun refused => guard.mp refused within
    simp only [if_neg passes, if_pos within, addressExact m offset (by omega)]
    rfl
  · simp only [if_pos (guard.mpr within), if_neg within]

theorem writeBytesOk {m : Mbuf} {offset : UInt64} {slice : ByteSlice} (some : 0 < slice.bytes.length)
    (within : offset.toNat + slice.bytes.length ≤ m.dataLen.toNat) :
    (∃ view, (writeBytes m offset slice).val.1 = .ok view) ↔
      offset.toNat + (offset.toNat + slice.bytes.length) ≤ m.dataLen.toNat := by
  have bound := m.dataLen.toNat_lt
  have bytes : (1 : UInt64).toNat * slice.count.toNat = slice.bytes.length := by
    rw [countNat]
    exact Nat.one_mul _
  rw [writeBytesValue slice (by omega), if_pos within]
  have readable : Readable (stored m offset.toNat slice.bytes) 1 offset slice.count ↔ _ :=
    readableIff (show offset.toNat < m.dataLen.toNat by omega) (by rw [bytes]; omega)
  rw [bytes] at readable
  exact readable

structure WritesAtomically (m : Mbuf) (offset : UInt64) (slice : ByteSlice) : Prop where
  stored : ∀ view, (writeBytes m offset slice).val.1 = .ok view → data (writeBytes m offset slice).val.2 =
    (data m).take offset.toNat ++ slice.bytes ++ (data m).drop (offset.toNat + slice.bytes.length)
  unchanged : ∀ e, (writeBytes m offset slice).val.1 = .error e → (writeBytes m offset slice).val.2.bytes = m.bytes

def Inserts (m : Mbuf) (offset : UInt64) (slice : ByteSlice) : Prop :=
  (extend m offset slice.count).val.1 = .ok () →
    ∃ view after, (writeBytes (extend m offset slice.count).val.2 offset slice).val =
        (.ok view, after) ∧
      data after = (data m).take offset.toNat ++ slice.bytes ++ (data m).drop offset.toNat

theorem dataPart {m : Mbuf} {offset n : Nat} (within : offset + n ≤ m.dataLen.toNat) :
    ((data m).drop offset).take n = read m.bytes (m.dataOff.toNat + offset : Nat) n := by
  rw [data, readDrop _ _ (by omega), readTake _ _ (by omega), Nat.cast_add]

theorem writesAtomicallyIff {m : Mbuf} {offset : UInt64} {slice : ByteSlice} (some : 0 < slice.bytes.length)
    (reach : offset.toNat ≤ m.dataLen.toNat) :
    WritesAtomically m offset slice ↔ (Hidden m offset.toNat slice.bytes.length →
      ((data m).drop offset.toNat).take slice.bytes.length = slice.bytes) := by
  have value := writeBytesValue slice reach
  by_cases within : offset.toNat + slice.bytes.length ≤ m.dataLen.toNat
  · rw [if_pos within] at value
    have after : (writeBytes m offset slice).val.2 = stored m offset.toNat slice.bytes := by rw [value]
    have granted := writeBytesOk some within
    constructor
    · intro atomic hidden
      rw [dataPart within, ← putSame]
      cases result : (writeBytes m offset slice).val.1 with
      | ok view => exact absurd (granted.mp ⟨view, result⟩) (Nat.not_le.mpr hidden.2)
      | error e =>
        have same := atomic.unchanged e result
        rw [after] at same
        exact same
    · intro there
      constructor
      case stored =>
        intro view _
        rw [after]
        exact storedData within
      case unchanged =>
        intro e result
        have hidden : Hidden m offset.toNat slice.bytes.length := by
          refine ⟨within, Nat.lt_of_not_le (fun low => ?_)⟩
          obtain ⟨view, ok⟩ := granted.mpr low
          rw [result] at ok
          cases ok
        rw [after]
        exact putSame.mpr (by rw [← dataPart within]; exact there hidden)
  · rw [if_neg within] at value
    constructor
    · intro _ hidden
      exact absurd hidden.1 within
    · intro _
      constructor
      case stored =>
        intro view ok
        rw [value] at ok
        cases ok
      case unchanged =>
        intro e _
        rw [value]

theorem insertsIff {m : Mbuf} (wf : Wf m) {offset : UInt64} {slice : ByteSlice} (some : 0 < slice.bytes.length) :
    Inserts m offset slice ↔
      (Extendable m offset.toNat slice.bytes.length → offset.toNat + offset.toNat ≤ m.dataLen.toNat) := by
  have refines := extendRefines wf offset slice.count
  rw [countNat] at refines
  rw [Inserts, refines.ok]
  apply imp_congr_right
  intro extendable
  have grown := refines.data extendable
  have long := grown.length
  rw [dataLength, dataLength] at long
  have within : offset.toNat + slice.bytes.length ≤ (extend m offset slice.count).val.2.dataLen.toNat := by
    have reach := extendable.2.2
    rw [dataLength] at reach
    omega
  have value := writeBytesValue slice (show offset.toNat ≤ (extend m offset slice.count).val.2.dataLen.toNat by omega)
  rw [if_pos within] at value
  have granted := writeBytesOk some within
  constructor
  · rintro ⟨view, after, written, _⟩
    have low := granted.mp ⟨view, by rw [written]⟩
    omega
  · intro low
    obtain ⟨view, ok⟩ := granted.mpr (by omega)
    refine ⟨view, stored (extend m offset slice.count).val.2 offset.toNat slice.bytes, ?_, ?_⟩
    · rw [value] at ok ⊢
      rw [← ok]
    · rw [storedData within, grown.front, grown.behind]

theorem writesIffNotHidden (m : Mbuf) (wf : Wf m) (offset : UInt64) (reach : offset.toNat ≤ m.dataLen.toNat)
    (slice : ByteSlice) (some : 0 < slice.bytes.length) :
    WritesAtomically m offset slice ∧ Inserts m offset slice ↔
      (Hidden m offset.toNat slice.bytes.length →
        ((data m).drop offset.toNat).take slice.bytes.length = slice.bytes) ∧
      (Extendable m offset.toNat slice.bytes.length → offset.toNat + offset.toNat ≤ m.dataLen.toNat) :=
  and_congr (writesAtomicallyIff some reach) (insertsIff wf some)

theorem writesIffNotHiddenAtSample :
    WritesAtomically sample 1 ⟨[7], by decide⟩ ∧ Inserts sample 1 ⟨[7], by decide⟩ :=
  (writesIffNotHidden sample ⟨by decide, by decide⟩ 1 (by decide) ⟨[7], by decide⟩ (by decide)).mpr
    ⟨fun hidden => absurd hidden (by simp [Hidden, sample]), fun _ => by decide⟩

theorem refusedWriteStored :
    ¬ (∀ (m : Mbuf) (offset : UInt64) (slice : ByteSlice), Wf m → offset.toNat ≤ m.dataLen.toNat →
      0 < slice.bytes.length → WritesAtomically m offset slice ∧ Inserts m offset slice) := by
  intro every
  have atomic := (every sample 1 ⟨[7, 8], by decide⟩ ⟨by decide, by decide⟩ (by decide) (by decide)).1
  have there := (writesAtomicallyIff (by decide) (by decide)).mp atomic (by simp [Hidden, sample])
  exact absurd there (by decide)

end Vdp.Mbuf
