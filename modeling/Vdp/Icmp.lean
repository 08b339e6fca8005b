import Vdp.Lib.OnesSum

/-! The checksum of an ICMP echo reply, computed from that of the request. The host is
little-endian. The update is the usual one, but its carries are meant to be folded in from
a variable of 16 bits, where there are none left. -/
namespace Vdp.Icmp
open Lib.OnesSum

def htons (x : UInt16) : UInt16 := swap x

def ipIcmpEchoRequest : UInt16 := 8
def ipIcmpEchoReply : UInt16 := 0

/- Operands are promoted to `int`; each assignment cuts back to 16 bits. -/
def pktIcmpChecksum (cksum : UInt16) : UInt16 :=
  let cksum := (~~~ cksum.toUInt32 &&& 0xffff).toUInt16
  let cksum := (cksum.toUInt32 + (~~~ (htons (ipIcmpEchoRequest <<< 8)).toUInt32 &&& 0xffff)).toUInt16
  let cksum := (cksum.toUInt32 + (htons (ipIcmpEchoReply <<< 8)).toUInt32).toUInt16
  let cksum := ((cksum.toUInt32 &&& (0xffff : UInt32)) + cksum.toUInt32 >>> (16 : UInt32)).toUInt16
  let cksum := ((cksum.toUInt32 &&& (0xffff : UInt32)) + cksum.toUInt32 >>> (16 : UInt32)).toUInt16
  (~~~ cksum.toUInt32).toUInt16

theorem complemented (x : UInt16) : (~~~ x.toUInt32 &&& 0xffff).toUInt16.toNat = 65535 - x.toNat := by
  have bound := x.toNat_lt
  rw [UInt32.toNat_toUInt16, UInt32.toNat_and, UInt32.toNat_not, UInt16.toNat_toUInt32,
    show (0xffff : UInt32).toNat = 2 ^ 16 - 1 from rfl, Nat.and_two_pow_sub_one_eq_mod]
  simp only [UInt32.size]
  omega

theorem foldNothing (x : UInt16) : ((x.toUInt32 &&& (0xffff : UInt32)) + x.toUInt32 >>> (16 : UInt32)).toUInt16 = x := by
  have bound := x.toNat_lt
  apply UInt16.toNat_inj.mp
  rw [UInt32.toNat_toUInt16, UInt32.toNat_add, UInt32.toNat_and, UInt32.toNat_shiftRight, UInt16.toNat_toUInt32,
    show (0xffff : UInt32).toNat = 2 ^ 16 - 1 from rfl, Nat.and_two_pow_sub_one_eq_mod,
    show (16 : UInt32).toNat % 32 = 16 from rfl, Nat.shiftRight_eq_div_pow]
  omega

theorem checksumNat (cksum : UInt16) : (pktIcmpChecksum cksum).toNat = (cksum.toNat + 9) % 2 ^ 16 := by
  have bound := cksum.toNat_lt
  have less : (~~~ (htons (ipIcmpEchoRequest <<< 8)).toUInt32 &&& 0xffff).toNat = 0xfff7 := by decide
  have more : (htons (ipIcmpEchoReply <<< 8)).toUInt32.toNat = 0 := by decide
  simp only [pktIcmpChecksum, foldNothing]
  rw [UInt32.toNat_toUInt16, UInt32.toNat_not, UInt16.toNat_toUInt32, UInt32.toNat_toUInt16, UInt32.toNat_add, more,
    UInt16.toNat_toUInt32, UInt32.toNat_toUInt16, UInt32.toNat_add, less, UInt16.toNat_toUInt32, complemented]
  simp only [UInt32.size]
  omega

structure Echo where
  type : UInt8
  code : UInt8
  cksum : UInt16
  rest : List UInt8
  deriving DecidableEq, Repr

def Echo.bytes (m : Echo) : List UInt8 :=
  m.type :: m.code :: m.cksum.toUInt8 :: (m.cksum >>> 8).toUInt8 :: m.rest

structure Echo.IsRequest (m : Echo) : Prop where
  type : m.type = 8
  code : m.code = 0
  valid : Valid m.bytes

def reply (m : Echo) : Echo := { m with type := 0, cksum := pktIcmpChecksum m.cksum }

theorem loadedNat (cksum : UInt16) (n : Nat) :
    (256 * cksum.toUInt8.toNat + (cksum >>> 8).toUInt8.toNat + n) % 65535 = (256 * cksum.toNat + n) % 65535 := by
  have bound := cksum.toNat_lt
  have high : (cksum >>> 8).toUInt8.toNat = cksum.toNat / 256 := by
    rw [UInt16.toNat_toUInt8, shiftedNat]
    omega
  rw [high, UInt16.toNat_toUInt8]
  omega

theorem validEcho (m : Echo) :
    Valid m.bytes ↔
      (256 * m.type.toNat + m.code.toNat + (256 * m.cksum.toNat + (sum m.rest).toNat)) % 65535 = 0 := by
  have tail := sumCons m.cksum.toUInt8 (m.cksum >>> 8).toUInt8 m.rest
  rw [loadedNat] at tail
  have whole := sumCons m.type m.code (m.cksum.toUInt8 :: (m.cksum >>> 8).toUInt8 :: m.rest)
  rw [Valid, isZeroIff, Echo.bytes, whole, Nat.add_mod, tail, ← Nat.add_mod]

theorem validReply {m : Echo} (code : m.code = 0) :
    Valid (reply m).bytes ↔ (256 * ((m.cksum.toNat + 9) % 2 ^ 16) + (sum m.rest).toNat) % 65535 = 0 := by
  rw [validEcho, ← checksumNat]
  simp [reply, code]

theorem validRequest {m : Echo} (request : m.IsRequest) :
    (2048 + (256 * m.cksum.toNat + (sum m.rest).toNat)) % 65535 = 0 := by
  have valid := (validEcho m).mp request.valid
  rw [request.type, request.code] at valid
  exact valid

/- The checksum is to grow by 8. It grows by 9: of the sum `~c + ~8` the carry is lost, which
is right only when there is none. -/
theorem replyValidIffNoCarry (m : Echo) (request : m.IsRequest) :
    Valid (reply m).bytes ↔ 0xfff7 ≤ m.cksum.toNat := by
  have bound := m.cksum.toNat_lt
  have before := validRequest request
  rw [validReply request.code]
  rcases Nat.lt_or_ge m.cksum.toNat 0xfff7 with carry | none
  · have sum : (m.cksum.toNat + 9) % 2 ^ 16 = m.cksum.toNat + 9 := by omega
    rw [sum]
    omega
  · have sum : (m.cksum.toNat + 9) % 2 ^ 16 = m.cksum.toNat + 9 - 2 ^ 16 := by omega
    rw [sum]
    omega

def ping : Echo := ⟨8, 0, 0xfef7, [0, 1, 0, 0]⟩

theorem pingRequest : ping.IsRequest := ⟨rfl, rfl, .inr (by decide)⟩

theorem replyValidIffNoCarryAtPing : Valid (reply ping).bytes ↔ 0xfff7 ≤ ping.cksum.toNat :=
  replyValidIffNoCarry ping pingRequest

theorem pingReplyInvalid : ping.IsRequest ∧ ¬ Valid (reply ping).bytes :=
  ⟨pingRequest, by rw [validReply rfl]; decide⟩

end Vdp.Icmp
