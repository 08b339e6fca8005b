import Mathlib.Algebra.Ring.Nat
import Mathlib.Data.List.Count
import Vdp.Fdpass
import Vdp.Lib.Run

/-! Two processes that pass descriptors, and whatever else they do with their tables. Of each
pair that arrives one descriptor is handed out; the other one stays open and nobody knows its
number. -/
namespace Vdp.Fdpass
open Lib.Run (run runNil runCons runInvariant)

section Runs
variable {File : Type}

/- With nothing to expect, `set_len` goes past the vector: that call is none of these. The rest is
what the two processes do besides. -/
inductive Action (File : Type) where
  | sendFd (id : List UInt8) (fd : Int) (choice : SendChoice)
  | recvFd (first : UInt8) (rest : List UInt8) (choice : RecvChoice)
  | drop (fd : Int)
  | senderSets (n : Int) (file : Option File)
  | receiverSets (n : Int) (file : Option File)

inductive Event (File : Type) where
  | sent (file zero : Option File) (id : List UInt8) (put : List (UInt8 × List File)) (result : Except Error Unit)
  | received (expect : List UInt8) (took : List (UInt8 × List File)) (numbers : List Int) (result : Except Error Int)
  | other

def kept (result : Except Error Int) (p : Int × File) : Bool := match result with
  | .ok fd => p.1 = fd
  | .error _ => false

def mine (w : World File) (n : Int) : Bool := (w.held ++ w.lost).any (fun p => p.1 = n)

def step (limit : Nat) (w : World File) : Action File → Option (Event File × World File)
  | .sendFd id fd choice => do
    let (result, t) ← sendFd id fd w choice
    some (.sent (w.sender fd) (w.sender 0) id (t.stream.drop w.stream.length) result, t)
  | .recvFd first rest choice => do
    let (result, t) ← recvFd limit (first :: rest) w choice
    let got := installed choice w
    let took := w.stream.take (w.stream.length - t.stream.length)
    some (.received (first :: rest) took choice.numbers result, { t with
      held := w.held ++ got.filter (kept result)
      lost := w.lost ++ got.filter (fun p => !kept result p) })
  | .drop fd =>
    if w.held.any (fun p => p.1 = fd) then some (.other, { w with
      receiver := Function.update w.receiver fd none
      held := w.held.filter (fun p => p.1 ≠ fd) })
    else none
  | .senderSets n file => some (.other, { w with sender := Function.update w.sender n file })
  | .receiverSets n file =>
    if mine w n then none else some (.other, { w with receiver := Function.update w.receiver n file })

def boot (sender receiver : Int → Option File) : World File := ⟨sender, [], receiver, [], []⟩

end Runs

section Tables
variable {File : Type}

theorem installOther {table : Int → Option File} {got : List (Int × File)} {n : Int} (other : n ∉ got.map Prod.fst) :
    install table got n = table n := by
  induction got with
  | nil => rfl
  | cons p rest ih =>
    simp only [List.map_cons, List.mem_cons, not_or] at other
    rw [install, Function.update_of_ne other.1]
    exact ih other.2

theorem installOwn {table : Int → Option File} {got : List (Int × File)} (distinct : (got.map Prod.fst).Nodup)
    {p : Int × File} (member : p ∈ got) : install table got p.1 = some p.2 := by
  induction got with
  | nil => cases member
  | cons q rest ih =>
    rw [List.map_cons, List.nodup_cons] at distinct
    rw [install]
    rcases List.mem_cons.mp member with same | later
    · rw [same, Function.update_self]
    · have apart : p.1 ≠ q.1 := by
        intro same
        exact distinct.1 (same ▸ List.mem_map_of_mem later)
      rw [Function.update_of_ne apart]
      exact ih distinct.2 later

structure Tables (limit : Nat) (w : World File) : Prop where
  filed : ∀ p ∈ w.held ++ w.lost, w.receiver p.1 = some p.2
  below : ∀ p ∈ w.held ++ w.lost, 0 ≤ p.1 ∧ p.1 < limit
  once : ((w.held ++ w.lost).map Prod.fst).Nodup

variable {limit : Nat} {w : World File}

theorem tablesInstalled (tables : Tables limit w) {iovLen size : Nat} {numbers : List Int}
    (takes : Takes limit iovLen size numbers w) (result : Except Error Int) {got : List (Int × File)}
    (same : got = numbers.zip ((w.stream.take size).flatMap Prod.snd)) (stream : List (UInt8 × List File)) :
    Tables limit { w with
      stream
      receiver := install w.receiver got
      held := w.held ++ got.filter (kept result)
      lost := w.lost ++ got.filter (fun p => !kept result p) } := by
  have names : got.map Prod.fst = numbers := by rw [same, List.map_fst_zip takes.files]
  have distinct : (got.map Prod.fst).Nodup := names ▸ takes.distinct
  have parts : (w.held ++ got.filter (kept result) ++ (w.lost ++ got.filter (fun p => !kept result p))).Perm
      (w.held ++ w.lost ++ got) := by
    have swapped := List.perm_append_comm_assoc (got.filter (kept result)) w.lost (got.filter (fun p => !kept result p))
    have whole := (List.filter_append_perm (kept result) got).append_left w.lost
    rw [List.append_assoc, List.append_assoc]
    exact (swapped.trans whole).append_left w.held
  have fresh : ∀ p ∈ got, p.1 ∈ numbers := fun p member => names ▸ List.mem_map_of_mem member
  have apart : ∀ p ∈ w.held ++ w.lost, p.1 ∉ numbers := by
    intro p member inside
    have none := (takes.free p.1 inside).2.2
    rw [tables.filed p member] at none
    cases none
  constructor
  case filed =>
    intro p member
    rcases List.mem_append.mp (parts.mem_iff.mp member) with old | new
    · exact (installOther (names ▸ apart p old)).trans (tables.filed p old)
    · exact installOwn distinct new
  case below =>
    intro p member
    rcases List.mem_append.mp (parts.mem_iff.mp member) with old | new
    · exact tables.below p old
    · obtain ⟨low, high, _⟩ := takes.free p.1 (fresh p new)
      exact ⟨low, high⟩
  case once =>
    rw [(parts.map Prod.fst).nodup_iff, List.map_append, names]
    refine tables.once.append takes.distinct ?_
    intro n old new
    obtain ⟨p, member, rfl⟩ := List.mem_map.mp old
    exact apart p member new

theorem tablesDropped (tables : Tables limit w) {fd : Int} (own : ∃ p ∈ w.held, p.1 = fd) : Tables limit { w with
    receiver := Function.update w.receiver fd none
    held := w.held.filter (fun p => p.1 ≠ fd) } := by
  have rest : (w.held.filter (fun p => p.1 ≠ fd) ++ w.lost).Sublist (w.held ++ w.lost) :=
    List.filter_sublist.append_right w.lost
  have other : ∀ p ∈ w.held.filter (fun p => p.1 ≠ fd) ++ w.lost, p.1 ≠ fd := by
    intro p member
    rcases List.mem_append.mp member with kept | lost
    · simpa using (List.mem_filter.mp kept).2
    · obtain ⟨q, held, same⟩ := own
      have once := tables.once
      rw [List.map_append, List.nodup_append] at once
      rw [← same]
      exact (once.2.2 q.1 (List.mem_map_of_mem held) p.1 (List.mem_map_of_mem lost)).symm
  constructor
  case filed =>
    intro p member
    exact (Function.update_of_ne (other p member) _ _).trans (tables.filed p (rest.subset member))
  case below => exact fun p member => tables.below p (rest.subset member)
  case once => exact tables.once.sublist (rest.map Prod.fst)

theorem tablesKept (tables : Tables limit w) {receiver : Int → Option File}
    (same : ∀ p ∈ w.held ++ w.lost, receiver p.1 = w.receiver p.1) (sender : Int → Option File)
    (stream : List (UInt8 × List File)) : Tables limit { w with sender, stream, receiver } where
  filed p member := (same p member).trans (tables.filed p member)
  below := tables.below
  once := tables.once

theorem tablesBounded (tables : Tables limit w) : w.held.length + w.lost.length ≤ limit := by
  have once : (((w.held ++ w.lost).map Prod.fst).map Int.toNat).Nodup := by
    apply tables.once.map_on
    intro n first k second same
    obtain ⟨p, inP, rfl⟩ := List.mem_map.mp first
    obtain ⟨q, inQ, rfl⟩ := List.mem_map.mp second
    have low := (tables.below p inP).1
    have lowToo := (tables.below q inQ).1
    omega
  have inside : ((w.held ++ w.lost).map Prod.fst).map Int.toNat ⊆ List.range limit := by
    intro k member
    obtain ⟨n, there, rfl⟩ := List.mem_map.mp member
    obtain ⟨p, open_, rfl⟩ := List.mem_map.mp there
    obtain ⟨low, high⟩ := tables.below p open_
    rw [List.mem_range]
    omega
  have most := (List.subperm_of_subset once inside).length_le
  rwa [List.length_map, List.length_map, List.length_append, List.length_range] at most

end Tables

section Whole
variable {File : Type}

def put : Event File → List (UInt8 × List File)
  | .sent _ _ _ put _ => put
  | _ => []

def took : Event File → List (UInt8 × List File)
  | .received _ took _ _ => took
  | _ => []

def succeeds : Event File → Bool
  | .received _ _ _ (.ok _) => true
  | _ => false

def leaked : Event File → Nat
  | .received _ _ numbers (.ok _) => numbers.length - 1
  | .received _ _ numbers (.error _) => numbers.length
  | _ => 0

/- A send needs descriptor 0 to be open and passes it on; a receive succeeds when it expects one
byte, finds it with two files or more, and has a number left for two of them. -/
def Answered : Event File → Prop
  | .sent file zero id put result => (∀ e, result = .error e → put = []) ∧ (result = .ok () → ∃ f z n, file = some f ∧
      zero = some z ∧ n ≤ id.length ∧ (id ≠ [] → 0 < n) ∧ put = message (id.take n) [f, z])
  | .received expect took numbers result => ∀ fd, result = .ok fd ↔ (∃ padding, numbers = [fd, padding]) ∧
      ∃ b f z more, expect = [b] ∧ took = [(b, f :: z :: more)]
  | .other => True

structure Did (limit : Nat) (w : World File) (e : Event File) (t : World File) : Prop where
  order : w.stream ++ put e = took e ++ t.stream
  answered : Answered e
  lost : ∃ more, t.lost = w.lost ++ more ∧ more.length = leaked e
  tables : Tables limit w → Tables limit t

variable {limit : Nat} {w t : World File}

theorem sendDid {id : List UInt8} {fd : Int} {choice : SendChoice} {e : Event File}
    (ok : step limit w (.sendFd id fd choice) = some (e, t)) : Did limit w e t := by
  obtain ⟨⟨result, u⟩, sent, last⟩ := Option.bind_eq_some_iff.mp ok
  cases last
  rcases sendFdDid sent with ⟨errno, rfl, rfl⟩ | ⟨n, f, z, rfl, file, zero, most, some, rfl⟩
  · refine ⟨?_, ⟨?_, ?_⟩, ⟨[], (List.append_nil _).symm, rfl⟩, fun tables => tables⟩
    · simp [put, took]
    · simp
    · rintro ⟨⟩
  · refine ⟨?_, ⟨?_, ?_⟩, ⟨[], (List.append_nil _).symm, rfl⟩, fun tables => tablesKept tables (fun _ _ => rfl) _ _⟩
    · simp [put, took]
    · rintro e ⟨⟩
    · exact fun _ => ⟨f, z, n, file, zero, most, some, by simp⟩

theorem nothingInstalled {choice : RecvChoice} (none : choice.numbers = []) (w : World File) : installed choice w = [] := by
  cases choice with
  | takes size numbers =>
    change numbers = [] at none
    rw [installed, none, List.zip_nil_left]
  | _ => rfl

theorem takesBoth {size : Nat} {fd padding : Int} {b : UInt8} (takes : Takes limit 1 size [fd, padding] w)
    (head : b = ((w.stream.take size).map Prod.fst).headD 0) :
    ∃ f z more, w.stream.take size = [(b, f :: z :: more)] ∧
      [fd, padding].zip ((w.stream.take size).flatMap Prod.snd) = [(fd, f), (padding, z)] := by
  have one : size = 1 := Nat.le_antisymm takes.fits takes.some
  subst one
  have there := takes.there
  have files := takes.files
  cases stream : w.stream with
  | nil =>
    rw [stream] at there
    cases there
  | cons p rest =>
    simp only [stream, List.take_succ_cons, List.take_zero, List.flatMap_cons, List.flatMap_nil, List.append_nil,
      List.map_cons, List.map_nil, List.headD_cons] at files head ⊢
    obtain ⟨byte, with_⟩ := p
    cases with_ with
    | nil => cases files
    | cons f more => cases more with
      | nil => exact absurd files (by simp)
      | cons z more => exact ⟨f, z, more, by rw [head], rfl⟩

theorem receiveDid {first : UInt8} {rest : List UInt8} {choice : RecvChoice} {e : Event File}
    (ok : step limit w (.recvFd first rest choice) = some (e, t)) : Did limit w e t := by
  obtain ⟨⟨result, u⟩, received, last⟩ := Option.bind_eq_some_iff.mp ok
  cases last
  rcases recvFdDid received with ⟨none, ⟨error, rfl⟩, rfl⟩ | ⟨size, numbers, rfl, takes, rfl, judged⟩
  · simp only [nothingInstalled none, List.filter_nil, List.append_nil, none, Nat.sub_self, List.take_zero]
    exact ⟨List.append_nil _, by simp [Answered], ⟨[], (List.append_nil _).symm, rfl⟩, fun tables => tables⟩
  · have count : w.stream.length - (w.stream.drop size).length = size := by
      have there := takes.there
      rw [List.length_drop]
      omega
    simp only [count, RecvChoice.numbers]
    constructor
    case order => simp [put, took]
    case answered =>
      intro fd
      rw [judged]
      constructor
      · rintro ⟨⟨padding, rfl⟩, expected⟩
        rw [expected] at takes
        obtain ⟨f, z, more, taken, _⟩ := takesBoth takes rfl
        exact ⟨⟨padding, rfl⟩, _, f, z, more, expected, taken⟩
      · rintro ⟨two, b, f, z, more, expected, taken⟩
        exact ⟨two, by rw [taken, expected]; rfl⟩
    case lost =>
      refine ⟨_, rfl, ?_⟩
      cases result with
      | error e =>
        have all : ∀ p ∈ installed (.takes size numbers) w, (!kept (.error e) p) = true := fun _ _ => rfl
        rw [List.filter_eq_self.mpr all, installed, List.length_zip, Nat.min_eq_left takes.files, leaked]
      | ok fd =>
        obtain ⟨⟨padding, rfl⟩, expected⟩ := (judged fd).mp rfl
        rw [expected] at takes
        obtain ⟨f, z, more, _, pairs⟩ := takesBoth takes rfl
        have other : padding ≠ fd := by simpa [eq_comm] using takes.distinct
        simp [kept, leaked, installed, pairs, other]
    case tables => exact fun tables => tablesInstalled tables takes result rfl _

theorem stepDid {a : Action File} {e : Event File} (ok : step limit w a = some (e, t)) : Did limit w e t := by
  cases a with
  | sendFd id fd choice => exact sendDid ok
  | recvFd first rest choice => exact receiveDid ok
  | drop fd =>
    simp only [step] at ok
    split at ok <;> try contradiction
    rename_i own
    cases ok
    refine ⟨List.append_nil _, trivial, ⟨[], (List.append_nil _).symm, rfl⟩, fun tables => tablesDropped tables ?_⟩
    simpa using own
  | senderSets n file =>
    cases ok
    refine ⟨List.append_nil _, trivial, ⟨[], (List.append_nil _).symm, rfl⟩, fun tables => ?_⟩
    exact tablesKept tables (fun _ _ => rfl) _ _
  | receiverSets n file =>
    simp only [step] at ok
    split at ok <;> try contradiction
    rename_i other
    cases ok
    refine ⟨List.append_nil _, trivial, ⟨[], (List.append_nil _).symm, rfl⟩, fun tables => tablesKept tables ?_ _ _⟩
    intro p member
    rw [Function.update_of_ne]
    rintro rfl
    exact other (List.any_eq_true.mpr ⟨p, member, decide_eq_true rfl⟩)

structure Passed (limit : Nat) (es : List (Event File)) (w : World File) : Prop where
  order : es.flatMap put = es.flatMap took ++ w.stream
  answered : ∀ e ∈ es, Answered e
  lost : w.lost.length = (es.map leaked).sum
  tables : Tables limit w

theorem runPassed {sender receiver : Int → Option File} {acts : List (Action File)} {es : List (Event File)}
    {u : World File} (ok : run (step limit) (boot sender receiver) acts = some (es, u)) : Passed limit es u := by
  apply runInvariant (Passed limit) _ _ ok
  · intro past s a e t so now
    have did := stepDid now
    constructor
    case order =>
      rw [List.flatMap_append, List.flatMap_singleton, so.order, List.append_assoc, did.order, List.flatMap_append,
        List.flatMap_singleton, List.append_assoc]
    case answered =>
      intro e member
      rcases List.mem_append.mp member with before | last
      · exact so.answered e before
      · rw [List.mem_singleton.mp last]
        exact did.answered
    case lost =>
      obtain ⟨more, same, count⟩ := did.lost
      rw [same, List.length_append, count, so.lost, List.map_append, List.sum_append, List.map_singleton,
        List.sum_singleton]
    case tables => exact did.tables so.tables
  · exact ⟨rfl, by simp, rfl, by simp [boot], by simp [boot], by simp [boot]⟩

theorem descriptorsArriveInOrder (limit : Nat) (sender receiver : Int → Option File) {acts more : List (Action File)}
    {es fs : List (Event File)} {u v : World File}
    (ok : run (step limit) (boot sender receiver) acts = some (es, u)) (later : run (step limit) u more = some (fs, v)) :
    Passed limit es u ∧ u.lost <+: v.lost := by
  refine ⟨runPassed ok, ?_⟩
  apply runInvariant (fun _ v => u.lost <+: v.lost) _ (List.prefix_refl _) later
  intro past s a e t so now
  obtain ⟨more, same, _⟩ := (stepDid now).lost
  exact so.trans ⟨more, same.symm⟩

theorem successCosts {e : Event File} (answered : Answered e) (good : succeeds e = true) : 1 ≤ leaked e := by
  match e, good, answered with
  | .received expect took numbers (.ok fd), _, judged =>
    obtain ⟨⟨padding, rfl⟩, _⟩ := (judged fd).mp rfl
    exact Nat.le_refl 1

theorem successLeaks {es : List (Event File)} (answered : ∀ e ∈ es, Answered e) :
    (es.filter succeeds).length ≤ (es.map leaked).sum := by
  induction es with
  | nil => exact Nat.le_refl 0
  | cons e rest ih =>
    have more := ih (fun e later => answered e (List.mem_cons_of_mem _ later))
    rw [List.map_cons, List.sum_cons]
    by_cases good : succeeds e = true
    · have one := successCosts (answered e List.mem_cons_self) good
      rw [List.filter_cons_of_pos good, List.length_cons]
      omega
    · rw [List.filter_cons_of_neg good]
      omega

theorem receivesRunOut (limit : Nat) (sender receiver : Int → Option File) {acts : List (Action File)}
    {es : List (Event File)} {u : World File} (ok : run (step limit) (boot sender receiver) acts = some (es, u)) :
    (es.filter succeeds).length ≤ limit := by
  have passed := runPassed ok
  have most := tablesBounded passed.tables
  rw [passed.lost] at most
  exact Nat.le_trans (successLeaks passed.answered) (Nat.le_of_add_left_le most)

def KeepsZeroClosed : Action File → Prop
  | .senderSets n file => n = 0 → file = none
  | _ => True

def Fails : Event File → Prop
  | .sent _ _ _ _ result => result ≠ .ok ()
  | .received _ _ _ result => ∀ fd, result ≠ .ok fd
  | .other => True

theorem stepWithoutZero {a : Action File} {e : Event File} (closed : w.sender 0 = none) (empty : w.stream = [])
    (keeps : KeepsZeroClosed a) (ok : step limit w a = some (e, t)) : t.sender 0 = none ∧ t.stream = [] ∧ Fails e := by
  cases a with
  | sendFd id fd choice =>
    obtain ⟨⟨result, u⟩, sent, last⟩ := Option.bind_eq_some_iff.mp ok
    cases last
    rcases sendFdDid sent with ⟨errno, rfl, rfl⟩ | ⟨n, f, z, rfl, _, zero, _⟩
    · exact ⟨closed, empty, by rintro ⟨⟩⟩
    · rw [closed] at zero
      cases zero
  | recvFd first rest choice =>
    obtain ⟨⟨result, u⟩, received, last⟩ := Option.bind_eq_some_iff.mp ok
    cases last
    rcases recvFdDid received with ⟨_, ⟨error, rfl⟩, rfl⟩ | ⟨size, numbers, _, takes, _⟩
    · exact ⟨closed, empty, by rintro fd ⟨⟩⟩
    · have there := takes.there
      rw [empty] at there
      exact absurd takes.some (Nat.not_lt.mpr there)
  | drop fd =>
    simp only [step] at ok
    split at ok <;> try contradiction
    cases ok
    exact ⟨closed, empty, trivial⟩
  | senderSets n file =>
    cases ok
    refine ⟨?_, empty, trivial⟩
    by_cases zero : n = 0
    · subst zero
      change Function.update w.sender 0 file 0 = none
      rw [Function.update_self]
      exact keeps rfl
    · change Function.update w.sender n file 0 = none
      rw [Function.update_of_ne (Ne.symm zero)]
      exact closed
  | receiverSets n file =>
    simp only [step] at ok
    split at ok <;> try contradiction
    cases ok
    exact ⟨closed, empty, trivial⟩

theorem nothingPassesWithoutZero (limit : Nat) (w : World File) (closed : w.sender 0 = none) (empty : w.stream = [])
    {acts : List (Action File)} (keeps : ∀ a ∈ acts, KeepsZeroClosed a) {es : List (Event File)} {u : World File}
    (ok : run (step limit) w acts = some (es, u)) : u.stream = [] ∧ ∀ e ∈ es, Fails e := by
  induction acts generalizing w es with
  | nil =>
    obtain ⟨rfl, rfl⟩ := runNil ok
    exact ⟨empty, by simp⟩
  | cons a rest ih =>
    obtain ⟨e, t, later, first, others, rfl⟩ := runCons ok
    obtain ⟨stillClosed, stillEmpty, fails⟩ := stepWithoutZero closed empty (keeps a List.mem_cons_self) first
    obtain ⟨last, all⟩ := ih t stillClosed stillEmpty (fun b member => keeps b (List.mem_cons_of_mem a member)) others
    exact ⟨last, List.forall_mem_cons.mpr ⟨fails, all⟩⟩

end Whole

section Samples

def sampleSender : Int → Option Nat := fun n => if n = 0 then some 1 else if n = 5 then some 7 else none

def passOne : List (Action Nat) := [.sendFd [0] 5 (.accepts 1), .recvFd 0 [] (.takes 1 [3, 4]), .drop 3]

theorem descriptorsArriveInOrderAtOne :
    ∃ es u, run (step 8) (boot sampleSender fun _ => none) passOne = some (es, u) ∧ Passed 8 es u ∧ u.lost <+: u.lost :=
  ⟨_, _, rfl, @descriptorsArriveInOrder Nat 8 sampleSender (fun _ => none) passOne [.recvFd 0 [] .ends] _ _ _ _ rfl rfl⟩

theorem receivesRunOutAtOne :
    ∃ es u, run (step 8) (boot sampleSender fun _ => none) passOne = some (es, u) ∧ (es.filter succeeds).length ≤ 8 :=
  ⟨_, _, rfl, @receivesRunOut Nat 8 sampleSender (fun _ => none) passOne _ _ rfl⟩

def passNone : List (Action Nat) := [.sendFd [0] 5 (.fails 9), .recvFd 0 [] (.fails 11)]

theorem nothingPassesWithoutZeroAtTwo :
    ∃ es u, run (step 8) (boot (fun n => if n = 5 then some 7 else none) fun _ => none) passNone = some (es, u) ∧
      u.stream = [] ∧ ∀ e ∈ es, Fails e :=
  ⟨_, _, rfl, nothingPassesWithoutZero 8 (boot (fun n => if n = 5 then some 7 else none) fun _ => none) rfl rfl
    (show ∀ a ∈ passNone, KeepsZeroClosed a by simp [passNone, KeepsZeroClosed]) rfl⟩

end Samples

end Vdp.Fdpass
