import Mathlib.Logic.Function.Basic
import Mathlib.Data.List.Nodup

/-! Descriptors passed over a Unix stream. The padding that follows the descriptor lies inside
the control message, so each message passes descriptor 0 as well. The receiver installs both and
keeps the number of the first. -/
namespace Vdp.Fdpass

structure FdPadding where
  fd : Int
  padding : Int
  deriving DecidableEq, Repr

def FdPadding.new (fd : Int) : FdPadding := ⟨fd, 0⟩

def sizeofFdPadding : Nat := 8

/- `cmsg_len`, `cmsg_level` and `cmsg_type` before the data; the last two never vary. -/
def sizeofCmsghdr : Nat := 16 + sizeofFdPadding

structure Cmsghdr where
  cmsgLen : Nat
  data : FdPadding
  deriving DecidableEq, Repr

def Cmsghdr.new (data : FdPadding) : Cmsghdr := ⟨sizeofCmsghdr, data⟩

inductive Error where
  | os (errno : Int)
  | other (text : String)
  deriving DecidableEq, Repr

def shortWrite (len : Nat) : Error := .other ("Short write: " ++ toString len)

/- The descriptor tables of the two processes, and the bytes between them, each with the files
that travel with it. `held` are the `FileDesc`s the receiver has; what it has installed and
forgotten is `lost`, which no program text reads. -/
structure World (File : Type) where
  sender : Int → Option File
  stream : List (UInt8 × List File)
  receiver : Int → Option File
  held : List (Int × File)
  lost : List (Int × File)

inductive SendChoice where
  | fails (errno : Int)
  | accepts (n : Nat)

inductive RecvChoice where
  | fails (errno : Int)
  | ends
  | takes (size : Nat) (numbers : List Int)

def RecvChoice.numbers : RecvChoice → List Int
  | .takes _ numbers => numbers
  | _ => []

section Kernel
variable {File : Type}

def cmsgLen (n : Nat) : Nat := 16 + 4 * n
def cmsgSpace (n : Nat) : Nat := 16 + (4 * n + 7) / 8 * 8

def fdMax (cmsgLen : Nat) : Nat := (cmsgLen - 16) / 4

def rights (ctrl : Cmsghdr) : List Int := [ctrl.data.fd, ctrl.data.padding].take (fdMax ctrl.cmsgLen)

def message : List UInt8 → List File → List (UInt8 × List File)
  | [], _ => []
  | b :: rest, files => (b, files) :: rest.map (fun b => (b, []))

def rawSendmsg (data : List UInt8) (ctrl : Cmsghdr) (w : World File) : SendChoice → Option (Except Int Nat × World File)
  | .fails errno => some (.error errno, w)
  | .accepts n => do
    let files ← (rights ctrl).mapM w.sender
    if n ≤ data.length ∧ (data ≠ [] → 0 < n) then
      some (.ok n, { w with stream := w.stream ++ message (data.take n) files })
    else none

structure Received where
  size : Nat
  bytes : List UInt8
  controllen : Nat
  ctrl : Cmsghdr

/- The kernel writes a control message when there is a descriptor to put into it. -/
def putCmsg (ctrl : Cmsghdr) : List Int → Nat × Cmsghdr
  | [] => (0, ctrl)
  | [fd] => (cmsgSpace 1, ⟨cmsgLen 1, ⟨fd, ctrl.data.padding⟩⟩)
  | fd :: padding :: _ => (cmsgSpace 2, ⟨cmsgLen 2, ⟨fd, padding⟩⟩)

def install (table : Int → Option File) : List (Int × File) → Int → Option File
  | [] => table
  | (n, file) :: rest => Function.update (install table rest) n (some file)

def installed (choice : RecvChoice) (w : World File) : List (Int × File) := match choice with
  | .takes size numbers => numbers.zip ((w.stream.take size).flatMap Prod.snd)
  | _ => []

/- At most one message with files is read at a time; the new numbers are free ones below the
limit, and files that no number is left for are dropped. -/
def rawRecvmsg (limit : Nat) (iovLen : Nat) (ctrl : Cmsghdr) (w : World File) (choice : RecvChoice) :
    Option (Except Int Received × World File) := match choice with
  | .fails errno => some (.error errno, w)
  | .ends => if w.stream = [] then some (.ok ⟨0, [], 0, ctrl⟩, w) else none
  | .takes size numbers =>
    let taken := w.stream.take size
    let files := taken.flatMap Prod.snd
    if 0 < size ∧ size ≤ iovLen ∧ size ≤ w.stream.length ∧ (taken.filter (fun p => !p.2.isEmpty)).length ≤ 1 ∧
        numbers.length ≤ fdMax ctrl.cmsgLen ∧ numbers.length ≤ files.length ∧ numbers.Nodup ∧
        ∀ n ∈ numbers, 0 ≤ n ∧ n < limit ∧ (w.receiver n).isNone then
      let (controllen, ctrl) := putCmsg ctrl numbers
      some (.ok ⟨size, taken.map Prod.fst, controllen, ctrl⟩, { w with
        stream := w.stream.drop size
        receiver := install w.receiver (installed choice w) })
    else none

end Kernel

section Code
variable {File : Type}

def sendmsg (id : List UInt8) (ctrl : Cmsghdr) (w : World File) (choice : SendChoice) :
    Option (Except Error Nat × World File) := do
  let (out, w) ← rawSendmsg id ctrl w choice
  some (out.mapError .os, w)

def sendFd (id : List UInt8) (fd : Int) (w : World File) (choice : SendChoice) :
    Option (Except Error Unit × World File) := do
  let fda := FdPadding.new fd
  let (out, w) ← sendmsg id (Cmsghdr.new fda) w choice
  some (out.map (fun _ => ()), w)

variable (limit : Nat)

/- The vector is given the length `msg_iovlen`, which is the number of its one `Iovec`. -/
def recvmsg (iovLen : Nat) (cmsgData : FdPadding) (w : World File) (choice : RecvChoice) :
    Option (Except Error (Nat × List UInt8 × FdPadding) × World File) := do
  let (out, w) ← rawRecvmsg limit iovLen (Cmsghdr.new cmsgData) w choice
  match out with
  | .error errno => some (.error (.os errno), w)
  | .ok msg =>
    let iovData := [msg.bytes.headD 0]
    if msg.controllen ≠ sizeofCmsghdr then some (.error (shortWrite msg.controllen), w)
    else if msg.ctrl.cmsgLen ≠ sizeofCmsghdr then some (.error (shortWrite msg.ctrl.cmsgLen), w)
    else some (.ok (msg.size, iovData, msg.ctrl.data), w)

def recvFd (iovExpect : List UInt8) (w : World File) (choice : RecvChoice) :
    Option (Except Error Int × World File) := do
  let fd := FdPadding.new (-1)
  let (out, w) ← recvmsg limit iovExpect.length fd w choice
  match out with
  | .ok (_, iovRecv, data) => if iovRecv ≠ iovExpect then some (.error (.other "Receive"), w) else some (.ok data.fd, w)
  | .error e => some (.error e, w)

end Code

section Calls
variable {File : Type} {limit : Nat} {w t : World File}

theorem fdMaxOwn : fdMax sizeofCmsghdr = 2 := by decide

theorem rightsBoth (fd : Int) : rights (Cmsghdr.new (FdPadding.new fd)) = [fd, 0] := by
  simp only [rights, Cmsghdr.new, FdPadding.new, fdMaxOwn, List.take_succ_cons, List.take_zero]

theorem sendFdDid {id : List UInt8} {fd : Int} {choice : SendChoice} {result : Except Error Unit}
    (ok : sendFd id fd w choice = some (result, t)) :
    (∃ errno, result = .error (.os errno) ∧ t = w) ∨
      ∃ n f z, result = .ok () ∧ w.sender fd = some f ∧ w.sender 0 = some z ∧ n ≤ id.length ∧ (id ≠ [] → 0 < n) ∧
        t = { w with stream := w.stream ++ message (id.take n) [f, z] } := by
  obtain ⟨⟨out, _⟩, sent, rest⟩ := Option.bind_eq_some_iff.mp ok
  obtain ⟨⟨raw, u⟩, called, last⟩ := Option.bind_eq_some_iff.mp sent
  cases last
  cases rest
  cases choice with
  | fails errno =>
    cases called
    exact .inl ⟨errno, rfl, rfl⟩
  | accepts n =>
    obtain ⟨files, opened, accepted⟩ := Option.bind_eq_some_iff.mp called
    split at accepted <;> try contradiction
    rename_i fits
    cases accepted
    simp only [rightsBoth, List.mapM_cons, List.mapM_nil, bind, Option.bind_eq_some_iff, pure,
      Option.some.injEq] at opened
    obtain ⟨f, file, _, ⟨z, zero, _, rfl, rfl⟩, rfl⟩ := opened
    exact .inr ⟨n, f, z, rfl, file, zero, fits.1, fits.2, rfl⟩

structure Takes (limit iovLen size : Nat) (numbers : List Int) (w : World File) : Prop where
  some : 0 < size
  fits : size ≤ iovLen
  there : size ≤ w.stream.length
  room : numbers.length ≤ 2
  files : numbers.length ≤ ((w.stream.take size).flatMap Prod.snd).length
  distinct : numbers.Nodup
  free : ∀ n ∈ numbers, 0 ≤ n ∧ n < limit ∧ w.receiver n = none

theorem recvFdDid {expect : List UInt8} {choice : RecvChoice} {result : Except Error Int}
    (ok : recvFd limit expect w choice = some (result, t)) :
    (choice.numbers = [] ∧ (∃ e, result = .error e) ∧ t = w) ∨
      ∃ size numbers, choice = .takes size numbers ∧ Takes limit expect.length size numbers w ∧
        t = { w with
          stream := w.stream.drop size
          receiver := install w.receiver (numbers.zip ((w.stream.take size).flatMap Prod.snd)) } ∧
        ∀ fd, result = .ok fd ↔
          (∃ padding, numbers = [fd, padding]) ∧ expect = [((w.stream.take size).map Prod.fst).headD 0] := by
  obtain ⟨⟨out, _⟩, received, judged⟩ := Option.bind_eq_some_iff.mp ok
  obtain ⟨⟨raw, u⟩, called, answered⟩ := Option.bind_eq_some_iff.mp received
  cases choice with
  | fails errno =>
    cases called
    cases answered
    cases judged
    exact .inl ⟨rfl, ⟨_, rfl⟩, rfl⟩
  | ends =>
    simp only [rawRecvmsg] at called
    split at called <;> try contradiction
    cases called
    cases answered
    cases judged
    exact .inl ⟨rfl, ⟨_, rfl⟩, rfl⟩
  | takes size numbers =>
    simp only [rawRecvmsg] at called
    split at called <;> try contradiction
    rename_i may
    obtain ⟨some, fits, there, _, room, files, distinct, free⟩ := may
    cases called
    refine .inr ⟨size, numbers, rfl, ⟨some, fits, there, room, files, distinct, ?_⟩, ?_⟩
    · intro n member
      obtain ⟨low, high, none⟩ := free n member
      exact ⟨low, high, Option.isNone_iff_eq_none.mp none⟩
    · cases numbers with
      | nil =>
        cases answered
        cases judged
        exact ⟨rfl, by simp⟩
      | cons fd more => cases more with
        | nil =>
          cases answered
          cases judged
          exact ⟨rfl, by simp⟩
        | cons padding more =>
          have short : more = [] := by
            simp only [Cmsghdr.new, fdMaxOwn, List.length_cons] at room
            exact List.eq_nil_of_length_eq_zero (by omega)
          subst short
          cases answered
          simp only at judged
          split at judged
          · cases judged
            refine ⟨rfl, ?_⟩
            rename_i differs
            intro fd
            simp only [reduceCtorEq, false_iff, not_and]
            exact fun _ same => differs same.symm
          · cases judged
            refine ⟨rfl, ?_⟩
            rename_i same
            intro fd
            simp only [Except.ok.injEq, List.cons.injEq, and_true, exists_and_left, exists_eq', not_not.mp same]
            exact Iff.rfl

end Calls

end Vdp.Fdpass
