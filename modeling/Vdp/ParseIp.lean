import Vdp.Lib.Scan

/-! IPv4 addresses between numbers and text in `shim.c`. A string is the bytes before its
terminator. `int` has 32 bits, so that the values of `%u` keep theirs in `ip`. -/
namespace Vdp.Shim
open Lib.Scan

def dot : UInt8 := 46

def quadFormat : List Directive :=
  [.unsigned, .literal dot, .unsigned, .literal dot, .unsigned, .literal dot, .unsigned]

def rteIpv4 (a b c d : UInt32) : UInt32 :=
  (a &&& 0xff) <<< 24 ||| (b &&& 0xff) <<< 16 ||| (c &&& 0xff) <<< 8 ||| (d &&& 0xff)

/- `none` is a `NULL`; what `dest` points to comes back. -/
def pktParseIp (ipStr : Option (List UInt8)) (dest : Option UInt32) : Int32 × Option UInt32 :=
  match ipStr, dest with
  | some ipStr, some _ => match sscanf quadFormat ipStr with
    | [a, b, c, d] => (0, some (rteIpv4 a b c d))
    | _ => (-1, dest)
  | _, _ => (-1, dest)

def quadText (ipSrc : UInt32) : List UInt8 :=
  sprintf quadFormat [ipSrc >>> 24 &&& 0xff, ipSrc >>> 16 &&& 0xff, ipSrc >>> 8 &&& 0xff, ipSrc &&& 0xff]

def pktParseCharIp (ipSrc : UInt32) : List UInt8 := snprintf 16 (quadText ipSrc)

theorem dotApart : isDigit dot = false := rfl

theorem maskNat (x : UInt32) : (x &&& 0xff).toNat = x.toNat % 256 := by
  rw [UInt32.toNat_and, show (0xff : UInt32).toNat = 2 ^ 8 - 1 from rfl, Nat.and_two_pow_sub_one_eq_mod]

theorem octetNat (x : UInt32) :
    (x >>> 24 &&& 0xff).toNat = x.toNat / 2 ^ 24 % 256 ∧ (x >>> 16 &&& 0xff).toNat = x.toNat / 2 ^ 16 % 256 ∧
      (x >>> 8 &&& 0xff).toNat = x.toNat / 2 ^ 8 % 256 := by
  refine ⟨?_, ?_, ?_⟩ <;> rw [maskNat, UInt32.toNat_shiftRight, Nat.shiftRight_eq_div_pow] <;> rfl

theorem orShifted {a b c d : Nat} (second : b < 256) (third : c < 256) (fourth : d < 256) :
    a <<< 24 ||| b <<< 16 ||| c <<< 8 ||| d = 256 * (256 * (256 * a + b) + c) + d := by
  have two : a <<< 24 ||| b <<< 16 = (256 * a + b) <<< 16 := by
    rw [← Nat.shiftLeft_add_eq_or_of_lt (by rw [Nat.shiftLeft_eq]; omega)]
    simp only [Nat.shiftLeft_eq]
    omega
  have three : (256 * a + b) <<< 16 ||| c <<< 8 = (256 * (256 * a + b) + c) <<< 8 := by
    rw [← Nat.shiftLeft_add_eq_or_of_lt (by rw [Nat.shiftLeft_eq]; omega)]
    simp only [Nat.shiftLeft_eq]
    omega
  rw [two, three, ← Nat.shiftLeft_add_eq_or_of_lt fourth, Nat.shiftLeft_eq]
  omega

theorem rteIpv4Nat (a b c d : UInt32) :
    (rteIpv4 a b c d).toNat =
      256 * (256 * (256 * (a.toNat % 256) + b.toNat % 256) + c.toNat % 256) + d.toNat % 256 := by
  have first : ((a &&& 0xff) <<< 24).toNat = (a.toNat % 256) <<< 24 := by
    rw [UInt32.toNat_shiftLeft, maskNat, show (24 : UInt32).toNat % 32 = 24 from rfl, Nat.shiftLeft_eq]
    omega
  have second : ((b &&& 0xff) <<< 16).toNat = (b.toNat % 256) <<< 16 := by
    rw [UInt32.toNat_shiftLeft, maskNat, show (16 : UInt32).toNat % 32 = 16 from rfl, Nat.shiftLeft_eq]
    omega
  have third : ((c &&& 0xff) <<< 8).toNat = (c.toNat % 256) <<< 8 := by
    rw [UInt32.toNat_shiftLeft, maskNat, show (8 : UInt32).toNat % 32 = 8 from rfl, Nat.shiftLeft_eq]
    omega
  rw [rteIpv4, UInt32.toNat_or, UInt32.toNat_or, UInt32.toNat_or, first, second, third, maskNat,
    orShifted (Nat.mod_lt _ (by decide)) (Nat.mod_lt _ (by decide)) (Nat.mod_lt _ (by decide))]

theorem rteIpv4Octets (x : UInt32) :
    rteIpv4 (x >>> 24 &&& 0xff) (x >>> 16 &&& 0xff) (x >>> 8 &&& 0xff) (x &&& 0xff) = x := by
  have bound := x.toNat_lt
  obtain ⟨first, second, third⟩ := octetNat x
  apply UInt32.toNat_inj.mp
  rw [rteIpv4Nat, first, second, third, maskNat]
  omega

theorem pktParseIpScanned {s : List UInt8} {a b c d : UInt32} (scanned : sscanf quadFormat s = [a, b, c, d])
    (dest : UInt32) : pktParseIp (some s) (some dest) = (0, some (rteIpv4 a b c d)) := by
  simp only [pktParseIp, scanned]

theorem pktParseIpJoined (first : Field) {others : List Field} {rest : List UInt8} (four : others.length = 3)
    (stop : NoDigit rest) (dest : UInt32) :
    ∃ a b c d, (first :: others).map Field.number = [a, b, c, d] ∧
      pktParseIp (some (joined dot first others ++ rest)) (some dest) = (0, some (rteIpv4 a b c d)) := by
  have scanned := sscanfJoined dotApart first others stop
  rw [four] at scanned
  match others, four with
  | [g, h, i], _ => exact ⟨_, _, _, _, rfl, pktParseIpScanned scanned dest⟩

theorem pktParseIpSound {s : List UInt8} {dest : UInt32} (zero : (pktParseIp (some s) (some dest)).1 = 0) :
    ∃ first others rest, others.length = 3 ∧ NoDigit rest ∧ s = joined dot first others ++ rest := by
  simp only [pktParseIp] at zero
  split at zero
  · rename_i a b c d scanned
    apply sscanfSound (n := 3)
    rw [show separated dot 3 = quadFormat from rfl, scanned]
    rfl
  · have minus : (-1 : Int32) = 0 := zero
    exact absurd minus (by decide)

theorem pktParseIpRefuses {s : List UInt8} {dest : UInt32} (nonzero : (pktParseIp (some s) (some dest)).1 ≠ 0) :
    pktParseIp (some s) (some dest) = (-1, some dest) := by
  simp only [pktParseIp] at nonzero ⊢
  split at nonzero
  · exact absurd rfl nonzero
  · rfl

structure Octet (digits : List UInt8) (n : UInt8) : Prop where
  some : digits ≠ []
  decimal : ∀ b ∈ digits, isDigit b = true
  value : value digits = n.toNat

def DottedQuad (s : List UInt8) (a b c d : UInt8) : Prop :=
  ∃ w x y z, Octet w a ∧ Octet x b ∧ Octet y c ∧ Octet z d ∧ s = w ++ dot :: (x ++ dot :: (y ++ dot :: z))

def address (a b c d : UInt8) : UInt32 :=
  UInt32.ofNat (256 * (256 * (256 * a.toNat + b.toNat) + c.toNat) + d.toNat)

structure ParsesExactly (s : List UInt8) : Prop where
  accepted : ∀ dest, (pktParseIp (some s) (some dest)).1 = 0 ↔ ∃ a b c d, DottedQuad s a b c d
  stored : ∀ dest a b c d, DottedQuad s a b c d → (pktParseIp (some s) (some dest)).2 = some (address a b c d)
  refused : ∀ dest, (pktParseIp (some s) (some dest)).1 ≠ 0 → pktParseIp (some s) (some dest) = (-1, some dest)

structure Bare (f : Field) : Prop where
  blank : f.blank = []
  sign : f.sign = .none
  small : value f.digits ≤ 255

def Lenient (s : List UInt8) : Prop :=
  ∃ first others rest, others.length = 3 ∧ NoDigit rest ∧ s = joined dot first others ++ rest ∧
    (rest ≠ [] ∨ ∃ f ∈ first :: others, f.blank ≠ [] ∨ f.sign ≠ .none ∨ 255 < value f.digits)

def Octet.field {digits : List UInt8} {n : UInt8} (octet : Octet digits n) : Field :=
  .ofDigits digits octet.some octet.decimal

theorem octetText {digits : List UInt8} {n : UInt8} (octet : Octet digits n) : octet.field.text = digits := rfl

theorem octetBare {digits : List UInt8} {n : UInt8} (octet : Octet digits n) : Bare octet.field := by
  have bound := n.toNat_lt
  have same : value octet.field.digits = n.toNat := octet.value
  exact ⟨rfl, rfl, by omega⟩

theorem octetNumber {digits : List UInt8} {n : UInt8} (octet : Octet digits n) :
    octet.field.number = n.toUInt32 := by
  have same : octet.field.number = UInt32.ofNat (value digits) := rfl
  rw [same, octet.value]
  simp

theorem bareOctet {f : Field} (bare : Bare f) : ∃ n, Octet f.text n := by
  have text : f.text = f.digits := by
    rw [Field.text, bare.blank, bare.sign]
    rfl
  have small := bare.small
  rw [text]
  exact ⟨UInt8.ofNat (value f.digits), f.some, f.decimal, by rw [UInt8.toNat_ofNat']; omega⟩

theorem quadFields {s : List UInt8} {a b c d : UInt8} (quad : DottedQuad s a b c d) :
    ∃ first others, others.length = 3 ∧ s = joined dot first others ++ [] ∧ (∀ f ∈ first :: others, Bare f) ∧
      (first :: others).map Field.number = [a.toUInt32, b.toUInt32, c.toUInt32, d.toUInt32] := by
  obtain ⟨w, x, y, z, first, second, third, fourth, rfl⟩ := quad
  refine ⟨first.field, [second.field, third.field, fourth.field], rfl, ?_, ?_, ?_⟩
  · simp [joined, octetText]
  · simp [octetBare]
  · simp [octetNumber]

theorem bareQuad {first : Field} {others : List Field} (four : others.length = 3)
    (bare : ∀ f ∈ first :: others, Bare f) : ∃ a b c d, DottedQuad (joined dot first others) a b c d := by
  match others, four with
  | [g, h, i], _ =>
    obtain ⟨a, octetA⟩ := bareOctet (bare first (by simp))
    obtain ⟨b, octetB⟩ := bareOctet (bare g (by simp))
    obtain ⟨c, octetC⟩ := bareOctet (bare h (by simp))
    obtain ⟨d, octetD⟩ := bareOctet (bare i (by simp))
    exact ⟨a, b, c, d, _, _, _, _, octetA, octetB, octetC, octetD, by simp [joined]⟩

theorem rteIpv4Address (a b c d : UInt8) :
    rteIpv4 a.toUInt32 b.toUInt32 c.toUInt32 d.toUInt32 = address a b c d := by
  have boundA := a.toNat_lt
  have boundB := b.toNat_lt
  have boundC := c.toNat_lt
  have boundD := d.toNat_lt
  apply UInt32.toNat_inj.mp
  rw [rteIpv4Nat, address, UInt32.toNat_ofNat']
  simp only [UInt8.toNat_toUInt32]
  omega

theorem quadParsed {s : List UInt8} {a b c d : UInt8} (quad : DottedQuad s a b c d) (dest : UInt32) :
    pktParseIp (some s) (some dest) = (0, some (address a b c d)) := by
  obtain ⟨first, others, four, rfl, _, numbers⟩ := quadFields quad
  obtain ⟨_, _, _, _, same, parsed⟩ := pktParseIpJoined first four noDigitNil dest
  rw [numbers] at same
  cases same
  rw [parsed, rteIpv4Address]

theorem lenientNoQuad {s : List UInt8} (lenient : Lenient s) {a b c d : UInt8} : ¬ DottedQuad s a b c d := by
  intro quad
  obtain ⟨first, others, rest, four, stop, same, slack⟩ := lenient
  obtain ⟨first', others', four', same', bare, _⟩ := quadFields quad
  rw [same] at same'
  obtain ⟨rfl, rfl, rfl⟩ := joinedUnique dotApart (four.trans four'.symm) stop noDigitNil same'
  rcases slack with some | ⟨f, member, slack⟩
  · exact some rfl
  · have fine := bare f member
    rcases slack with blank | sign | large
    · exact blank fine.blank
    · exact sign fine.sign
    · exact absurd fine.small (Nat.not_le.mpr large)

theorem strictQuad {s : List UInt8} (strict : ¬ Lenient s) {dest : UInt32}
    (zero : (pktParseIp (some s) (some dest)).1 = 0) : ∃ a b c d, DottedQuad s a b c d := by
  obtain ⟨first, others, rest, four, stop, rfl⟩ := pktParseIpSound zero
  have nothing : rest = [] := by
    by_contra some
    exact strict ⟨first, others, rest, four, stop, rfl, .inl some⟩
  have bare : ∀ f ∈ first :: others, Bare f := by
    intro f member
    have fine : ¬ (f.blank ≠ [] ∨ f.sign ≠ .none ∨ 255 < value f.digits) := fun slack =>
      strict ⟨first, others, rest, four, stop, rfl, .inr ⟨f, member, slack⟩⟩
    simp only [not_or, not_not, Nat.not_lt] at fine
    exact ⟨fine.1, fine.2.1, fine.2.2⟩
  rw [nothing, List.append_nil]
  exact bareQuad four bare

theorem parsesIffNotLenient (s : List UInt8) : ParsesExactly s ↔ ¬ Lenient s := by
  constructor
  · intro exactly lenient
    obtain ⟨first, others, rest, four, stop, same, _⟩ := id lenient
    obtain ⟨_, _, _, _, _, parsed⟩ := pktParseIpJoined first four stop 0
    rw [← same] at parsed
    obtain ⟨a, b, c, d, quad⟩ := (exactly.accepted 0).mp (by rw [parsed])
    exact lenientNoQuad lenient quad
  · intro strict
    constructor
    case accepted =>
      intro dest
      constructor
      · exact strictQuad strict
      · rintro ⟨a, b, c, d, quad⟩
        rw [quadParsed quad]
    case stored =>
      intro dest a b c d quad
      rw [quadParsed quad]
    case refused =>
      intro dest
      exact pktParseIpRefuses

def oversized : List UInt8 := [50, 53, 54, dot, 49, dot, 49, dot, 49]

theorem oversizedLenient : Lenient oversized := by
  let large : Field := .ofDigits [50, 53, 54] (by simp) (List.all_eq_true.mp rfl)
  let one : Field := .ofDigits [49] (by simp) (List.all_eq_true.mp rfl)
  exact ⟨large, [one, one, one], [], rfl, noDigitNil, rfl, .inr ⟨large, by simp, .inr (.inr (by decide))⟩⟩

theorem oversizedAccepted :
    pktParseIp (some oversized) (some 7) = (0, some 0x00010101) ∧ ¬ ParsesExactly oversized := by
  have parsed : pktParseIp (some oversized) (some 7) = (0, some 0x00010101) := by decide
  refine ⟨parsed, ?_⟩
  intro exactly
  obtain ⟨a, b, c, d, quad⟩ := (exactly.accepted 7).mp (by rw [parsed])
  exact lenientNoQuad oversizedLenient quad

theorem quadOctets (x : UInt32) :
    ∀ v ∈ [x >>> 24 &&& 0xff, x >>> 16 &&& 0xff, x >>> 8 &&& 0xff, x &&& 0xff], v.toNat < 10 ^ 3 := by
  have small : ∀ y : UInt32, (y &&& 0xff).toNat < 10 ^ 3 := by
    intro y
    rw [maskNat]
    omega
  simp only [List.forall_mem_cons, List.not_mem_nil, false_implies, implies_true, and_true]
  exact ⟨small _, small _, small _, small _⟩

theorem quadTextLength (x : UInt32) : (quadText x).length + 1 ≤ 16 :=
  Nat.succ_le_succ (sprintfLength (by decide) dot (quadOctets x))

theorem quadTextBytes (x : UInt32) : ∀ b ∈ quadText x, b ≠ 0 := by
  intro b member
  have bytes : isDigit b = true ∨ b = dot :=
    @sprintfBytes dot (x >>> 24 &&& 0xff) [x >>> 16 &&& 0xff, x >>> 8 &&& 0xff, x &&& 0xff] b member
  rcases bytes with digit | sep
  · rintro rfl
    exact absurd digit (by decide)
  · rw [sep]
    decide

theorem pktParseCharIpWhole (x : UInt32) : pktParseCharIp x = quadText x ++ [0] := by
  have length := quadTextLength x
  rw [pktParseCharIp, snprintf, List.take_of_length_le (by omega)]

theorem cStringPrinted (x : UInt32) : cString (pktParseCharIp x) = quadText x := by
  rw [pktParseCharIpWhole, cString]
  apply (spanPrefix _ _).1
  · intro b member
    simpa using quadTextBytes x b member
  · simp

theorem printedParses (x dest : UInt32) :
    pktParseIp (some (cString (pktParseCharIp x))) (some dest) = (0, some x) := by
  have scanned : sscanf quadFormat (quadText x) = _ :=
    sscanfSprintf dotApart (x >>> 24 &&& 0xff) [x >>> 16 &&& 0xff, x >>> 8 &&& 0xff, x &&& 0xff]
  rw [cStringPrinted, pktParseIpScanned scanned, rteIpv4Octets]

theorem printedAddressParses (x : UInt32) :
    (quadText x).length + 1 ≤ 16 ∧ pktParseCharIp x = quadText x ++ [0] ∧
      (∀ dest, pktParseIp (some (cString (pktParseCharIp x))) (some dest) = (0, some x)) ∧
      ∀ y, cString (pktParseCharIp x) = cString (pktParseCharIp y) → x = y := by
  refine ⟨quadTextLength x, pktParseCharIpWhole x, printedParses x, ?_⟩
  intro y same
  have first := printedParses x 0
  rw [same, printedParses y 0] at first
  exact (Option.some.inj (Prod.mk.inj first).2).symm

end Vdp.Shim
