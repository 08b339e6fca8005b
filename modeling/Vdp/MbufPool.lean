import Vdp.MbufSlices
import Mathlib.Data.Set.Insert

/-! Buffers and the pool they come from. The pool library is outside the repository: it
hands out some free buffer, empty and with its data area inside it, or none, and takes a
freed one back. `from_bytes` allocates, extends, writes, and drops the buffer on an error. -/
namespace Vdp.Mbuf
open Lib.Bytes Lib.Wrap Lib.Words

structure RteMempool (P Ptr : Type) where
  available : P → Set Ptr
  pktmbufAlloc : P → Option (Ptr × Mbuf × P)
  pktmbufFree : P → Ptr → P
  allocated : ∀ p x m q, pktmbufAlloc p = some (x, m, q) → x ∈ available p ∧ available q = available p \ {x}
  fresh : ∀ p x m q, pktmbufAlloc p = some (x, m, q) →
    m.dataLen = 0 ∧ m.pktLen = 0 ∧ m.dataOff.toNat ≤ m.bufLen.toNat
  freed : ∀ p x, available (pktmbufFree p x) = insert x (available p)

def listMempool (Ptr : Type) [DecidableEq Ptr] : RteMempool (List Ptr) Ptr where
  available p := {x | x ∈ p}
  pktmbufAlloc p := match p with
    | [] => none
    | x :: rest => some (x, ⟨2176, 128, 0, 0, fun _ => 0⟩, rest.filter (· ≠ x))
  pktmbufFree p x := x :: p
  allocated p x m q found := by
    cases p with
    | nil => cases found
    | cons y rest =>
      cases found
      refine ⟨List.mem_cons_self, Set.ext (fun z => ?_)⟩
      by_cases same : z = x <;> simp [same]
  fresh p x m q found := by
    cases p with
    | nil => cases found
    | cons y rest =>
      cases found
      exact ⟨rfl, rfl, by decide⟩
  freed p x := Set.ext (fun z => by simp)

variable {P Ptr : Type} (pool : RteMempool P Ptr)

/- The pointer goes with the buffer; a dropped buffer goes back. -/
def fromBytesIn (mp : P) (slice : ByteSlice) : Except FromBytesError (Ptr × Mbuf) × P :=
  match pool.pktmbufAlloc mp with
  | none => (.error .noBuf, mp)
  | some (ptr, mbuf, mp) =>
    let (result, dropped) := (fromBytes (some mbuf) slice.bytes).val
    (result.map (fun out => (ptr, out)), match dropped with
      | some _ => pool.pktmbufFree mp ptr
      | none => mp)

structure Holds (m : Mbuf) (slice : ByteSlice) : Prop where
  dataLen : m.dataLen.toNat = slice.bytes.length
  pktLen : m.pktLen.toNat = slice.bytes.length
  data : data m = slice.bytes
  read : ∃ view, (readDataSlice m 1 0 slice.count).val = .ok view ∧ items m 1 view = slice.bytes.map (fun b => [b])

theorem byteStored {m : Mbuf} {bytes : List UInt8} (same : data m = bytes) :
    storedItems m 1 0 bytes.length = bytes.map (fun b => [b]) := by
  subst same
  apply List.ext_getElem
  · simp [storedItems]
  · intro i below _
    simp only [storedItems, List.length_map, List.length_range] at below
    simp [storedItems, List.take_one, List.getElem?_eq_getElem below]

theorem holdsOf {m : Mbuf} {slice : ByteSlice} (some : 0 < slice.bytes.length) (wf : Wf m)
    (same : data m = slice.bytes) : Holds m slice := by
  have bound := m.dataLen.toNat_lt
  have length : m.dataLen.toNat = slice.bytes.length := by rw [← same, dataLength]
  have count := countNat slice
  have inside : (0 : UInt64).toNat < m.dataLen.toNat := by simpa [length] using some
  have small : (0 : UInt64).toNat + (1 : UInt64).toNat * slice.count.toNat < 2 ^ 64 := by
    simp only [UInt64.toNat_zero, UInt64.toNat_one]
    omega
  have accepts : Accepts m 1 0 slice.count := by
    rw [acceptsIff inside small, Hidden]
    simp only [UInt64.toNat_zero, UInt64.toNat_one]
    omega
  obtain ⟨view, granted⟩ := accepts.ok.mpr (by
    rw [dataLength, count, length]
    simp)
  have denoted := accepts.items view granted
  rw [count] at denoted
  exact ⟨length, wf.same.trans length, same, view, granted, denoted.trans (byteStored same)⟩

theorem fromBytesFits {m : Mbuf} (wf : Wf m) (empty : m.dataLen = 0) {slice : ByteSlice}
    (some : 0 < slice.bytes.length) (fits : slice.bytes.length ≤ room m) :
    ∃ out, (fromBytes (.some m) slice.bytes).val = (.ok out, none) ∧ Holds out slice := by
  have extended : (extend m 0 slice.count).val.1 = .ok () := by
    apply (extendRefines wf 0 slice.count).ok.mpr
    rw [countNat]
    exact ⟨some, fits, Nat.zero_le _⟩
  -- at offset 0 nothing is counted twice
  have inserts : Inserts m 0 slice := (insertsIff wf some).mpr (fun _ => by simp)
  obtain ⟨view, after, written, same⟩ := inserts extended
  have none : data m = [] := List.eq_nil_of_length_eq_zero (by rw [dataLength, empty]; rfl)
  have bytes : data after = slice.bytes := by simpa [none] using same
  have bounded := slice.bounded
  have kept : Wf after := by
    have wf' := (extendKept wf 0 slice.count).wf
    have later := (writeKept wf' 1 0 (slice.bytes.map (Vector.replicate _)) (by simp; omega)).wf
    rw [← writeBytes, written] at later
    exact later
  refine ⟨after, ?_, holdsOf some kept bytes⟩
  have fold : UInt64.ofNat slice.bytes.length = slice.count := rfl
  have wrote := written
  rw [writeBytes] at wrote
  simp only [fromBytes, bindEq, fold, extended, wrote, pureEq]

theorem fromBytesRefuses {m : Mbuf} (wf : Wf m) {slice : ByteSlice}
    (refused : ¬ (0 < slice.bytes.length ∧ slice.bytes.length ≤ room m)) :
    (fromBytes (.some m) slice.bytes).val = (.error (.buf .notResized), .some m) := by
  have refines := extendRefines wf 0 slice.count
  have same := refines.refused (by
    rw [countNat]
    exact fun extendable => refused ⟨extendable.1, extendable.2.1⟩)
  have fold : UInt64.ofNat slice.bytes.length = slice.count := rfl
  simp only [fromBytes, bindEq, fold, same, pureEq]

structure StoresOrGivesBack (mp : P) (slice : ByteSlice) (r : Except FromBytesError (Ptr × Mbuf) × P) : Prop where
  ok : (∃ ptr out, r.1 = .ok (ptr, out)) ↔ ∃ ptr m q, pool.pktmbufAlloc mp = some (ptr, m, q) ∧
    1 ≤ slice.bytes.length ∧ slice.bytes.length ≤ m.bufLen.toNat - m.dataOff.toNat
  holds : ∀ ptr out, r.1 = .ok (ptr, out) → Holds out slice
  taken : ∀ ptr out, r.1 = .ok (ptr, out) → pool.available r.2 = pool.available mp \ {ptr}
  back : ∀ e, r.1 = .error e → pool.available r.2 = pool.available mp

theorem freshWf {mp : P} {ptr : Ptr} {m : Mbuf} {q : P} (found : pool.pktmbufAlloc mp = some (ptr, m, q)) :
    Wf m ∧ room m = m.bufLen.toNat - m.dataOff.toNat := by
  obtain ⟨dataLen, pktLen, inside⟩ := pool.fresh mp ptr m q found
  refine ⟨⟨?_, ?_⟩, ?_⟩
  · rw [dataLen]
    simpa using inside
  · rw [dataLen, pktLen]
    rfl
  · rw [room, dataLen]
    simp

theorem givenBack {mp : P} {ptr : Ptr} {m : Mbuf} {q : P} (found : pool.pktmbufAlloc mp = some (ptr, m, q)) :
    pool.available (pool.pktmbufFree q ptr) = pool.available mp := by
  obtain ⟨member, less⟩ := pool.allocated mp ptr m q found
  rw [pool.freed, less, Set.insert_sdiff_singleton, Set.insert_eq_of_mem member]

theorem fitsStores {mp : P} {ptr : Ptr} {m out : Mbuf} {q : P} (found : pool.pktmbufAlloc mp = some (ptr, m, q))
    {slice : ByteSlice} (fits : 1 ≤ slice.bytes.length ∧ slice.bytes.length ≤ m.bufLen.toNat - m.dataOff.toNat)
    (holds : Holds out slice) : StoresOrGivesBack pool mp slice (.ok (ptr, out), q) := by
  constructor
  case ok => exact ⟨fun _ => ⟨ptr, m, q, found, fits⟩, fun _ => ⟨ptr, out, rfl⟩⟩
  case holds =>
    intro _ _ same
    cases same
    exact holds
  case taken =>
    intro _ _ same
    cases same
    exact (pool.allocated mp ptr m q found).2
  case back =>
    intro e error
    cases error

theorem refusedGivesBack {mp : P} {ptr : Ptr} {m : Mbuf} {q : P} (found : pool.pktmbufAlloc mp = some (ptr, m, q))
    {slice : ByteSlice} (refused : ¬ (1 ≤ slice.bytes.length ∧ slice.bytes.length ≤ m.bufLen.toNat - m.dataOff.toNat))
    (e : FromBytesError) : StoresOrGivesBack pool mp slice (.error e, pool.pktmbufFree q ptr) := by
  constructor
  case ok =>
    constructor
    · rintro ⟨_, _, ok⟩
      cases ok
    · rintro ⟨_, _, _, same, asked⟩
      rw [found] at same
      cases same
      exact absurd asked refused
  case holds => intro _ _ ok; cases ok
  case taken => intro _ _ ok; cases ok
  case back =>
    intro _ _
    exact givenBack pool found

theorem fromBytesStoresOrGivesBack (mp : P) (slice : ByteSlice) :
    StoresOrGivesBack pool mp slice (fromBytesIn pool mp slice) := by
  unfold fromBytesIn
  cases found : pool.pktmbufAlloc mp with
  | none => constructor <;> simp [found]
  | some taken =>
    obtain ⟨ptr, m, q⟩ := taken
    obtain ⟨wf, space⟩ := freshWf pool found
    by_cases fits : 0 < slice.bytes.length ∧ slice.bytes.length ≤ room m
    · obtain ⟨out, result, holds⟩ := fromBytesFits wf (pool.fresh mp ptr m q found).1 fits.1 fits.2
      rw [space] at fits
      simp only [result]
      exact fitsStores pool found fits holds
    · simp only [fromBytesRefuses wf fits]
      rw [space] at fits
      exact refusedGivesBack pool found fits _

def threeBytes : ByteSlice := ⟨[1, 2, 3], by decide⟩

theorem fromBytesStoresAtThree :
    ∃ out, fromBytesIn (listMempool Nat) [4, 5] threeBytes = (.ok (4, out), [5]) ∧ Holds out threeBytes := by
  have stores := fromBytesStoresOrGivesBack (listMempool Nat) [4, 5] threeBytes
  exact ⟨_, rfl, stores.holds _ _ rfl⟩

theorem fromBytesInCases (mp : P) (slice : ByteSlice) :
    (∃ ptr m q out, pool.pktmbufAlloc mp = some (ptr, m, q) ∧ 1 ≤ slice.bytes.length ∧
        slice.bytes.length ≤ m.bufLen.toNat - m.dataOff.toNat ∧ Holds out slice ∧
        fromBytesIn pool mp slice = (.ok (ptr, out), q)) ∨
      ∃ e q, pool.available q = pool.available mp ∧ fromBytesIn pool mp slice = (.error e, q) ∧
        ∀ ptr m r, pool.pktmbufAlloc mp = some (ptr, m, r) →
          ¬ (1 ≤ slice.bytes.length ∧ slice.bytes.length ≤ m.bufLen.toNat - m.dataOff.toNat) := by
  cases found : pool.pktmbufAlloc mp with
  | none =>
    refine .inr ⟨.noBuf, mp, rfl, by simp [fromBytesIn, found], ?_⟩
    intro ptr m r same
    cases same
  | some taken =>
    obtain ⟨ptr, m, q⟩ := taken
    obtain ⟨wf, space⟩ := freshWf pool found
    by_cases fits : 0 < slice.bytes.length ∧ slice.bytes.length ≤ room m
    · obtain ⟨out, result, holds⟩ := fromBytesFits wf (pool.fresh mp ptr m q found).1 fits.1 fits.2
      refine .inl ⟨ptr, m, q, out, rfl, fits.1, by rw [← space]; exact fits.2, holds, ?_⟩
      simp only [fromBytesIn, found, result]
      rfl
    · refine .inr ⟨.buf .notResized, pool.pktmbufFree q ptr, givenBack pool found, ?_, ?_⟩
      · simp only [fromBytesIn, found, fromBytesRefuses wf fits]
        rfl
      · rintro _ _ _ ⟨⟩
        rwa [space] at fits

end Vdp.Mbuf
