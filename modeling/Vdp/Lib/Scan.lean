import Mathlib.Data.List.TakeWhile
import Mathlib.Data.Nat.Digits.Lemmas

/-! Reading decimal numbers as `scanf` does and writing them as `printf` does, byte by byte.
`%u` skips blanks, takes a sign and as many digits as there are, and keeps the value modulo
`2^32`; any other byte of a format stands for itself. What follows the last conversion is
never looked at. -/
namespace Vdp.Lib.Scan

def isSpace (b : UInt8) : Bool := b == 32 || (9 ≤ b && b ≤ 13)

def isDigit (b : UInt8) : Bool := 48 ≤ b && b ≤ 57

def value (digits : List UInt8) : Nat := Nat.ofDigits 10 (digits.map (fun b => b.toNat - 48)).reverse

inductive Sign where
  | none
  | plus
  | minus
  deriving DecidableEq, Repr

def Sign.text : Sign → List UInt8
  | .none => []
  | .plus => [43]
  | .minus => [45]

structure Field where
  blank : List UInt8
  sign : Sign
  digits : List UInt8
  blanks : ∀ b ∈ blank, isSpace b = true
  some : digits ≠ []
  decimal : ∀ b ∈ digits, isDigit b = true

def Field.ofDigits (digits : List UInt8) (some : digits ≠ []) (decimal : ∀ b ∈ digits, isDigit b = true) : Field :=
  ⟨[], .none, digits, List.forall_mem_nil _, some, decimal⟩

def Field.text (f : Field) : List UInt8 := f.blank ++ (f.sign.text ++ f.digits)

def Field.number (f : Field) : UInt32 := match f.sign with
  | .minus => 0 - UInt32.ofNat (value f.digits)
  | _ => UInt32.ofNat (value f.digits)

def scanSign : List UInt8 → Sign × List UInt8
  | [] => (.none, [])
  | b :: rest => if b = 43 then (.plus, rest) else if b = 45 then (.minus, rest) else (.none, b :: rest)

def scanField (s : List UInt8) : Option (Field × List UInt8) :=
  let signed := scanSign (s.dropWhile isSpace)
  if some : signed.2.takeWhile isDigit ≠ [] then
    .some (⟨s.takeWhile isSpace, signed.1, signed.2.takeWhile isDigit, fun _ => List.mem_takeWhile_imp, some,
      fun _ => List.mem_takeWhile_imp⟩, signed.2.dropWhile isDigit)
  else .none

def NoDigit (s : List UInt8) : Prop := ∀ b ∈ s.head?, isDigit b = false

theorem noDigitNil : NoDigit [] := by simp [NoDigit]

theorem spanPrefix {p : UInt8 → Bool} {front back : List UInt8} (all : ∀ b ∈ front, p b = true)
    (stop : ∀ b ∈ back.head?, p b = false) :
    (front ++ back).takeWhile p = front ∧ (front ++ back).dropWhile p = back := by
  rw [List.takeWhile_append_of_pos all, List.dropWhile_append_of_pos all]
  cases back with
  | nil => simp
  | cons b rest => simp [stop b rfl]

theorem dropWhileStops (p : UInt8 → Bool) (s : List UInt8) : ∀ b ∈ (s.dropWhile p).head?, p b = false := by
  induction s with
  | nil => simp
  | cons b rest ih =>
    rw [List.dropWhile_cons]
    split
    · exact ih
    · rename_i stop
      simpa using stop

theorem scanSignText (s : List UInt8) : (scanSign s).1.text ++ (scanSign s).2 = s := by
  cases s with
  | nil => rfl
  | cons b rest =>
    by_cases plus : b = 43
    · simp [scanSign, plus, Sign.text]
    · by_cases minus : b = 45
      · simp [scanSign, minus, Sign.text]
      · simp [scanSign, plus, minus, Sign.text]

theorem scanFieldSound {s rest : List UInt8} {f : Field} (found : scanField s = some (f, rest)) :
    s = f.text ++ rest ∧ NoDigit rest := by
  simp only [scanField] at found
  split at found <;> try contradiction
  cases found
  refine ⟨?_, dropWhileStops isDigit _⟩
  simp only [Field.text, List.append_assoc, List.takeWhile_append_dropWhile, scanSignText]

theorem digitPlain {b : UInt8} (digit : isDigit b = true) : isSpace b = false ∧ b ≠ 43 ∧ b ≠ 45 := by
  have range : 48 ≤ b.toNat ∧ b.toNat ≤ 57 := by
    simpa [isDigit, UInt8.le_iff_toNat_le] using digit
  refine ⟨?_, ?_, ?_⟩
  · have other : b ≠ 32 := by
      rintro rfl
      exact absurd range (by decide)
    have above : ¬ b ≤ 13 := by
      rw [UInt8.le_iff_toNat_le]
      simp
      omega
    simp [isSpace, other, above]
  · rintro rfl
    exact absurd range (by decide)
  · rintro rfl
    exact absurd range (by decide)

theorem scanSignFound (sign : Sign) {b : UInt8} (digit : isDigit b = true) (rest : List UInt8) :
    scanSign (sign.text ++ b :: rest) = (sign, b :: rest) := by
  obtain ⟨_, plus, minus⟩ := digitPlain digit
  cases sign with
  | none => simp [Sign.text, scanSign, plus, minus]
  | plus => rfl
  | minus => rfl

theorem signStops (sign : Sign) {b : UInt8} (digit : isDigit b = true) (rest : List UInt8) :
    ∀ c ∈ (sign.text ++ b :: rest).head?, isSpace c = false := by
  cases sign with
  | none => simpa [Sign.text] using (digitPlain digit).1
  | plus => simp [Sign.text]; decide
  | minus => simp [Sign.text]; decide

theorem scanFieldText (f : Field) {rest : List UInt8} (stop : NoDigit rest) :
    scanField (f.text ++ rest) = some (f, rest) := by
  obtain ⟨blank, sign, digits, blanks, some, decimal⟩ := f
  cases digits with
  | nil => contradiction
  | cons b more =>
    have digit := decimal b List.mem_cons_self
    obtain ⟨front, signed⟩ := spanPrefix blanks (signStops sign digit (more ++ rest))
    obtain ⟨number, back⟩ := spanPrefix decimal stop
    rw [List.cons_append] at number back
    have text : Field.text ⟨blank, sign, b :: more, blanks, some, decimal⟩ ++ rest =
        blank ++ (sign.text ++ b :: (more ++ rest)) := by
      simp [Field.text]
    simp only [scanField, text, front, signed, scanSignFound sign digit, number, back]
    simp

inductive Directive where
  | unsigned
  | literal (b : UInt8)
  deriving DecidableEq, Repr

def sscanf : List Directive → List UInt8 → List UInt32
  | [], _ => []
  | .unsigned :: format, s => match scanField s with
    | none => []
    | some (f, rest) => f.number :: sscanf format rest
  | .literal b :: format, s => match s with
    | [] => []
    | c :: rest => if c = b then sscanf format rest else []

def separated (sep : UInt8) : Nat → List Directive
  | 0 => [.unsigned]
  | n + 1 => .unsigned :: .literal sep :: separated sep n

def joined (sep : UInt8) (first : Field) (others : List Field) : List UInt8 :=
  first.text ++ others.flatMap (fun f => sep :: f.text)

section Separated
variable {sep : UInt8}

theorem joinedCons (first f : Field) (others : List Field) (rest : List UInt8) :
    joined sep first (f :: others) ++ rest = first.text ++ (sep :: (joined sep f others ++ rest)) := by
  simp [joined]

theorem joinedNil (first : Field) (rest : List UInt8) : joined sep first [] ++ rest = first.text ++ rest := by
  simp [joined]

theorem noDigitSep (apart : isDigit sep = false) (rest : List UInt8) : NoDigit (sep :: rest) := by
  simpa [NoDigit] using apart

theorem sscanfJoined (apart : isDigit sep = false) (first : Field) (others : List Field) {rest : List UInt8}
    (stop : NoDigit rest) :
    sscanf (separated sep others.length) (joined sep first others ++ rest) = (first :: others).map Field.number := by
  induction others generalizing first with
  | nil =>
    rw [joinedNil, List.length_nil, separated, sscanf, scanFieldText first stop]
    simp [sscanf]
  | cons f others ih =>
    rw [joinedCons, List.length_cons, separated, sscanf, scanFieldText first (noDigitSep apart _)]
    simp only [sscanf, if_true, ih f, List.map_cons]

theorem sscanfSound {n : Nat} {s : List UInt8} (all : (sscanf (separated sep n) s).length = n + 1) :
    ∃ first others rest, others.length = n ∧ NoDigit rest ∧ s = joined sep first others ++ rest := by
  induction n generalizing s with
  | zero =>
    simp only [separated, sscanf] at all
    split at all <;> try contradiction
    rename_i f rest found
    obtain ⟨text, stop⟩ := scanFieldSound found
    exact ⟨f, [], rest, rfl, stop, by rw [joinedNil]; exact text⟩
  | succ n ih =>
    simp only [separated, sscanf] at all
    split at all <;> try contradiction
    rename_i f rest found
    obtain ⟨text, _⟩ := scanFieldSound found
    cases rest with
    | nil => simp at all
    | cons c tail =>
      by_cases same : c = sep
      · subst same
        simp only [if_true, List.length_cons, Nat.succ.injEq] at all
        obtain ⟨g, others, last, length, stop, later⟩ := ih all
        refine ⟨f, g :: others, last, by simp [length], stop, ?_⟩
        rw [joinedCons, ← later]
        exact text
      · simp [if_neg same] at all

theorem joinedUnique (apart : isDigit sep = false) {first first' : Field} {others others' : List Field}
    {rest rest' : List UInt8} (length : others.length = others'.length) (stop : NoDigit rest) (stop' : NoDigit rest')
    (same : joined sep first others ++ rest = joined sep first' others' ++ rest') :
    first = first' ∧ others = others' ∧ rest = rest' := by
  induction others generalizing first first' others' with
  | nil =>
    cases List.eq_nil_of_length_eq_zero length.symm
    rw [joinedNil, joinedNil] at same
    have scanned := scanFieldText first stop
    rw [same, scanFieldText first' stop'] at scanned
    obtain ⟨rfl, rfl⟩ := Prod.mk.inj (Option.some.inj scanned)
    exact ⟨rfl, rfl, rfl⟩
  | cons f others ih =>
    cases others' with
    | nil => contradiction
    | cons f' others' =>
      rw [joinedCons, joinedCons] at same
      have scanned := scanFieldText first (noDigitSep apart (joined sep f others ++ rest))
      rw [same, scanFieldText first' (noDigitSep apart _)] at scanned
      obtain ⟨rfl, tail⟩ := Prod.mk.inj (Option.some.inj scanned)
      obtain ⟨rfl, rfl, rfl⟩ := ih (Nat.succ.inj length) (List.cons.inj tail).2.symm
      exact ⟨rfl, rfl, rfl⟩

end Separated

def digitByte (d : Nat) : UInt8 := 48 + UInt8.ofNat d

def decimal (n : Nat) : List UInt8 := if n = 0 then [48] else (Nat.digits 10 n).reverse.map digitByte

theorem digitByteNat {d : Nat} (small : d < 10) : (digitByte d).toNat = 48 + d := by
  rw [digitByte, UInt8.toNat_add, UInt8.toNat_ofNat']
  simp only [UInt8.reduceToNat]
  omega

theorem decimalDigits (n : Nat) : ∀ b ∈ decimal n, isDigit b = true := by
  intro b member
  rw [decimal] at member
  split at member
  · rw [List.mem_singleton.mp member]
    rfl
  · obtain ⟨d, found, rfl⟩ := List.mem_map.mp member
    have small := Nat.digits_lt_base (by decide) (List.mem_reverse.mp found)
    simp only [isDigit, Bool.and_eq_true, decide_eq_true_eq, UInt8.le_iff_toNat_le, digitByteNat small,
      UInt8.reduceToNat]
    omega

theorem decimalSome (n : Nat) : decimal n ≠ [] := by
  rw [decimal]
  split
  · simp
  · rename_i nonzero
    simpa [Nat.digits_eq_nil_iff_eq_zero] using nonzero

theorem valueDecimal (n : Nat) : value (decimal n) = n := by
  rw [decimal]
  split
  · rename_i zero
    rw [zero]
    rfl
  · have back : (Nat.digits 10 n).map ((fun b => b.toNat - 48) ∘ digitByte) = Nat.digits 10 n := by
      apply (List.map_congr_left _).trans (List.map_id _)
      intro d member
      rw [Function.comp_apply, digitByteNat (Nat.digits_lt_base (by decide) member), Nat.add_sub_cancel_left]
      rfl
    rw [value, List.map_map, List.map_reverse, List.reverse_reverse, back, Nat.ofDigits_digits]

theorem decimalLength {n k : Nat} (some : 0 < k) (small : n < 10 ^ k) : (decimal n).length ≤ k := by
  rw [decimal]
  split
  · exact some
  · rw [List.length_map, List.length_reverse]
    exact (Nat.digits_length_le_iff (by decide) n).mpr small

def printed (n : Nat) : Field := .ofDigits (decimal n) (decimalSome n) (decimalDigits n)

theorem printedText (n : Nat) : (printed n).text = decimal n := rfl

theorem printedNumber (v : UInt32) : (printed v.toNat).number = v := by
  simp [printed, Field.ofDigits, Field.number, valueDecimal]

def sprintf : List Directive → List UInt32 → List UInt8
  | [], _ => []
  | .unsigned :: format, [] => sprintf format []
  | .unsigned :: format, v :: args => decimal v.toNat ++ sprintf format args
  | .literal b :: format, args => b :: sprintf format args

def snprintf (size : Nat) (text : List UInt8) : List UInt8 := text.take (size - 1) ++ [0]

def cString (bytes : List UInt8) : List UInt8 := bytes.takeWhile (· ≠ 0)

theorem sprintfSeparated (sep : UInt8) (v : UInt32) (args : List UInt32) :
    sprintf (separated sep args.length) (v :: args) =
      joined sep (printed v.toNat) (args.map (fun w => printed w.toNat)) := by
  induction args generalizing v with
  | nil => simp [separated, sprintf, joined, printedText]
  | cons w args ih =>
    rw [List.length_cons, separated, sprintf, sprintf, ih w]
    simp [joined, printedText]

theorem sprintfBytes {sep : UInt8} {v : UInt32} {args : List UInt32} :
    ∀ b ∈ sprintf (separated sep args.length) (v :: args), isDigit b = true ∨ b = sep := by
  induction args generalizing v with
  | nil =>
    intro b member
    simp only [List.length_nil, separated, sprintf, List.append_nil] at member
    exact .inl (decimalDigits _ b member)
  | cons w args ih =>
    intro b member
    rw [List.length_cons, separated, sprintf, sprintf] at member
    rcases List.mem_append.mp member with digits | later
    · exact .inl (decimalDigits _ b digits)
    · rcases List.mem_cons.mp later with same | others
      · exact .inr same
      · exact ih b others

theorem sprintfLength {k : Nat} (some : 0 < k) (sep : UInt8) {v : UInt32} {args : List UInt32}
    (small : ∀ w ∈ v :: args, w.toNat < 10 ^ k) :
    (sprintf (separated sep args.length) (v :: args)).length ≤ k + args.length * (k + 1) := by
  obtain ⟨first, others⟩ := List.forall_mem_cons.mp small
  have one := decimalLength some first
  induction args generalizing v with
  | nil =>
    simp only [List.length_nil, separated, sprintf, List.append_nil]
    omega
  | cons w args ih =>
    obtain ⟨second, rest⟩ := List.forall_mem_cons.mp others
    have later := ih others second rest (decimalLength some second)
    rw [List.length_cons, separated, sprintf, sprintf, List.length_append, List.length_cons, Nat.succ_mul]
    omega

theorem sscanfSprintf {sep : UInt8} (apart : isDigit sep = false) (v : UInt32) (args : List UInt32) :
    sscanf (separated sep args.length) (sprintf (separated sep args.length) (v :: args)) = v :: args := by
  have back := sscanfJoined apart (printed v.toNat) (args.map (fun w => printed w.toNat)) noDigitNil
  have numbers : Field.number ∘ (fun w : UInt32 => printed w.toNat) = id := funext printedNumber
  rw [List.append_nil, List.length_map, List.map_cons, List.map_map, printedNumber, numbers, List.map_id] at back
  rw [sprintfSeparated]
  exact back

end Vdp.Lib.Scan
