import Vdp.Lib.Run
import Vdp.MemEnpsf

/-! The mux between accepted packets and clients: the listener thread, one `handle_client`
thread for each connection, and the dispatch at the end of the packet loop. Their steps
interleave freely, although `main` joins the listener's scope before it reaches the loop.
The lookup and the blocking `send` hold one read lock, so they are one step; a message left
in a channel whose receiver is gone stays there. -/
namespace Vdp.Dispatch
open Lib.Run IpcQueue Memenpsf

def cap : UInt64 := 20
def burstSz : Nat := 512
def memenpsf : String := "memenpsf"
def srvc : String := "dummy"

structure Pushed (Ptr : Type) where
  mbuf : Ptr
  pkt : Packet
  full : Bool
  ret : Except IoError Unit

inductive Handler (Ptr : Type) where
  | starting
  | waiting (dev : MemEnpsf)
  | holding (dev : MemEnpsf) (buf : Ptr)
  | finished (dev : MemEnpsf)
  | returned
  | crashed

structure Client (Ptr : Type) where
  name : String
  queue : List Ptr
  handler : Handler Ptr
  shm : Shm
  sent : List Ptr
  pushed : List (Pushed Ptr)

structure System (Ptr : Type) where
  serviceMap : List (String × Nat)
  clients : List (Client Ptr)
  returned : List Ptr
  panicked : Bool

/- A client is known by the order of its connection. `connect` is `MemEnpsf::new`, with the
address and the contents of the mapped region, or nothing when no descriptor arrives. -/
inductive Action (Ptr : Type) where
  | accept
  | connect (i : Nat) (region : Option (Int × Shm))
  | recv (i : Nat)
  | xmit (i : Nat)
  | finish (i : Nat)
  | dispatch (pkt : Ptr)

variable {Ptr : Type}

def Client.alive (c : Client Ptr) : Bool := match c.handler with
  | .returned => false
  | .crashed => false
  | _ => true

def mapped : Handler Ptr → Bool
  | .starting => false
  | .crashed => false
  | _ => true

/- A client is connected once its region is mapped. It stays so: no code looks whether it is
still there, and what is promised is promised to a client that does not go. -/
def Client.connected (c : Client Ptr) : Bool := mapped c.handler

def Client.inHand (c : Client Ptr) : List Ptr := match c.handler with
  | .holding _ buf => [buf]
  | _ => []

def insert (map : List (String × Nat)) (key : String) (value : Nat) : List (String × Nat) :=
  (key, value) :: map.filter (fun e => e.1 ≠ key)

def ringFull (r : RingBuf) : Bool := nextInd r.capacity r.write.toInt64 = some r.read.toInt64

def System.put (s : System Ptr) (i : Nat) (c : Client Ptr) : System Ptr :=
  { s with clients := s.clients.set i c }

def accept (s : System Ptr) : System Ptr :=
  let map := insert s.serviceMap srvc s.clients.length
  let name := memenpsf ++ toString map.length
  { s with serviceMap := map, clients := s.clients ++ [⟨name, [], .starting, fun _ => 0, [], []⟩] }

def connect (s : System Ptr) (i : Nat) (region : Option (Int × Shm)) : Option (System Ptr) := do
  let c ← s.clients[i]?
  match c.handler, region with
  | .starting, some (base, shm) =>
    some (s.put i { c with handler := .waiting (MemEnpsf.new c.name cap base), shm := shm })
  | .starting, none => some (s.put i { c with handler := .crashed })
  | _, _ => none

/- `cons.recv()` fails only when the channel is empty and every sender is gone. -/
def recv (s : System Ptr) (i : Nat) : Option (System Ptr) := do
  let c ← s.clients[i]?
  match c.handler, c.queue with
  | .waiting dev, buf :: rest => some (s.put i { c with handler := .holding dev buf, queue := rest })
  | .waiting _, [] =>
    if i ∈ s.serviceMap.map Prod.snd then none else some (s.put i { c with handler := .returned })
  | _, _ => none

/- `into_ptr` forgets the `Mbuf`, so its drop does not run; `contents` is what the read of
a whole `[u8; MTU]` at the data address gives. -/
def xmit (contents : Ptr → Packet) (s : System Ptr) (i : Nat) : Option (System Ptr) := do
  let c ← s.clients[i]?
  match c.handler with
  | .holding dev buf =>
    let pkt := contents buf
    let fx ← xmitToClient dev c.shm pkt
    let entry := ⟨buf, pkt, ringFull dev.s2cQ, fx.ret⟩
    some (s.put i { c with handler := .finished fx.dev, shm := fx.shm, pushed := c.pushed ++ [entry] })
  | _ => none

def finish (s : System Ptr) (i : Nat) : Option (System Ptr) := do
  let c ← s.clients[i]?
  match c.handler with
  | .finished _ => some (s.put i { c with handler := .returned })
  | _ => none

/- A failed unwrap drops the packet on its way out and takes `main` with it. -/
def panic (s : System Ptr) (pkt : Ptr) : System Ptr :=
  { s with returned := s.returned ++ [pkt], panicked := true }

def disconnected (s : System Ptr) (i : Nat) : Bool := match s.clients[i]? with
  | some c => c.queue.isEmpty && decide (i ∉ s.serviceMap.map Prod.snd)
  | none => false

def dispatch (s : System Ptr) (pkt : Ptr) : Option (System Ptr) :=
  match s.serviceMap.lookup srvc with
  | none => some (panic s pkt)
  | some i => do
    let c ← s.clients[i]?
    if c.alive = false then some (panic s pkt)
    else if c.queue.length < burstSz then
      some (s.put i { c with queue := c.queue ++ [pkt], sent := c.sent ++ [pkt] })
    else none

def step (contents : Ptr → Packet) (s : System Ptr) (a : Action Ptr) : Option (System Ptr) :=
  if s.panicked then none else match a with
  | .accept => some (accept s)
  | .connect i region => connect s i region
  | .recv i => recv s i
  | .xmit i => xmit contents s i
  | .finish i => finish s i
  | .dispatch pkt => dispatch s pkt

def boot : System Ptr := ⟨[], [], [], false⟩

/- What a client is promised. A packet that was not handed on yet waits in the channel or in
the handler, in the order of the sends. -/
structure Delivers (contents : Ptr → Packet) (s : System Ptr) (c : Client Ptr) : Prop where
  order : c.sent = c.pushed.map Pushed.mbuf ++ c.inHand ++ c.queue
  copies : ∀ p ∈ c.pushed, p.pkt = contents p.mbuf
  onlyFull : ∀ p ∈ c.pushed, p.ret ≠ .ok () → p.full = true
  receiver : c.connected = true → c.alive = true
  freed : ∀ p ∈ c.pushed, p.mbuf ∈ s.returned

def DeliversTo (contents : Ptr → Packet) (i : Nat) (e : Transition (System Ptr) (Action Ptr)) : Prop :=
  ∀ c, e.after.clients[i]? = some c → Delivers contents e.after c

inductive Did (contents : Ptr → Packet) (s : System Ptr) : Action Ptr → System Ptr → Prop where
  | accepted : Did contents s .accept (accept s)
  | connected {i c} (region : Int × Shm) (found : s.clients[i]? = some c) (phase : c.handler = .starting) :
      Did contents s (.connect i (some region))
        (s.put i { c with handler := .waiting (MemEnpsf.new c.name cap region.1), shm := region.2 })
  | unmapped {i c} (found : s.clients[i]? = some c) (phase : c.handler = .starting) :
      Did contents s (.connect i none) (s.put i { c with handler := .crashed })
  | received {i c dev buf rest} (found : s.clients[i]? = some c) (phase : c.handler = .waiting dev)
      (queue : c.queue = buf :: rest) :
      Did contents s (.recv i) (s.put i { c with handler := .holding dev buf, queue := rest })
  | closed {i c dev} (found : s.clients[i]? = some c) (phase : c.handler = .waiting dev) (queue : c.queue = [])
      (gone : i ∉ s.serviceMap.map Prod.snd) : Did contents s (.recv i) (s.put i { c with handler := .returned })
  | handed {i c dev buf fx} (found : s.clients[i]? = some c) (phase : c.handler = .holding dev buf)
      (pushed : xmitToClient dev c.shm (contents buf) = some fx) :
      Did contents s (.xmit i) (s.put i { c with
        handler := .finished fx.dev
        shm := fx.shm
        pushed := c.pushed ++ [⟨buf, contents buf, ringFull dev.s2cQ, fx.ret⟩] })
  | ended {i c dev} (found : s.clients[i]? = some c) (phase : c.handler = .finished dev) :
      Did contents s (.finish i) (s.put i { c with handler := .returned })
  | unknown {pkt} (missing : s.serviceMap.lookup srvc = none) : Did contents s (.dispatch pkt) (panic s pkt)
  | refused {pkt i c} (known : s.serviceMap.lookup srvc = some i) (found : s.clients[i]? = some c)
      (dead : c.alive = false) : Did contents s (.dispatch pkt) (panic s pkt)
  | queued {pkt i c} (known : s.serviceMap.lookup srvc = some i) (found : s.clients[i]? = some c)
      (living : c.alive = true) : Did contents s (.dispatch pkt)
        (s.put i { c with queue := c.queue ++ [pkt], sent := c.sent ++ [pkt] })

theorem connectDid {contents : Ptr → Packet} {s t : System Ptr} {i region} (ok : connect s i region = some t) :
    Did contents s (.connect i region) t := by
  obtain ⟨c, found, now⟩ := Option.bind_eq_some_iff.mp ok
  split at now <;> try contradiction
  · rename_i phase
    cases Option.some.inj now
    exact .connected _ found phase
  · rename_i phase
    cases Option.some.inj now
    exact .unmapped found phase

theorem recvDid {contents : Ptr → Packet} {s t : System Ptr} {i} (ok : recv s i = some t) :
    Did contents s (.recv i) t := by
  obtain ⟨c, found, now⟩ := Option.bind_eq_some_iff.mp ok
  split at now <;> try contradiction
  · rename_i phase queue
    cases Option.some.inj now
    exact .received found phase queue
  · rename_i phase queue
    split at now <;> try contradiction
    rename_i gone
    cases Option.some.inj now
    exact .closed found phase queue gone

theorem xmitDid {contents : Ptr → Packet} {s t : System Ptr} {i} (ok : xmit contents s i = some t) :
    Did contents s (.xmit i) t := by
  obtain ⟨c, found, now⟩ := Option.bind_eq_some_iff.mp ok
  split at now <;> try contradiction
  rename_i phase
  obtain ⟨fx, pushed, last⟩ := Option.bind_eq_some_iff.mp now
  cases Option.some.inj last
  exact .handed found phase pushed

theorem finishDid {contents : Ptr → Packet} {s t : System Ptr} {i} (ok : finish s i = some t) :
    Did contents s (.finish i) t := by
  obtain ⟨c, found, now⟩ := Option.bind_eq_some_iff.mp ok
  split at now <;> try contradiction
  rename_i phase
  cases Option.some.inj now
  exact .ended found phase

theorem dispatchDid {contents : Ptr → Packet} {s t : System Ptr} {pkt} (ok : dispatch s pkt = some t) :
    Did contents s (.dispatch pkt) t := by
  unfold dispatch at ok
  split at ok
  · rename_i missing
    cases Option.some.inj ok
    exact .unknown missing
  · rename_i known
    obtain ⟨c, found, now⟩ := Option.bind_eq_some_iff.mp ok
    split at now
    · rename_i dead
      cases Option.some.inj now
      exact .refused known found dead
    · rename_i living
      split at now <;> try contradiction
      cases Option.some.inj now
      exact .queued known found (by simpa using living)

theorem stepDid {contents : Ptr → Packet} {s t : System Ptr} {a} (ok : step contents s a = some t) :
    s.panicked = false ∧ Did contents s a t := by
  unfold step at ok
  split at ok <;> try contradiction
  rename_i running
  refine ⟨by simpa using running, ?_⟩
  cases a with
  | accept =>
    cases Option.some.inj ok
    exact .accepted
  | connect i region => exact connectDid ok
  | recv i => exact recvDid ok
  | xmit i => exact xmitDid ok
  | finish i => exact finishDid ok
  | dispatch pkt => exact dispatchDid ok

theorem putGet {s : System Ptr} {j : Nat} {c : Client Ptr} (found : s.clients[j]? = some c) (new : Client Ptr)
    (i : Nat) : (s.put j new).clients[i]? = if i = j then some new else s.clients[i]? := by
  obtain ⟨inside, _⟩ := List.getElem?_eq_some_iff.mp found
  by_cases same : i = j
  · subst same
    simp [System.put, inside]
  · simp [System.put, Ne.symm same, same]

theorem putOwn {s : System Ptr} {i : Nat} {c : Client Ptr} (found : s.clients[i]? = some c) (new : Client Ptr) :
    (s.put i new).clients[i]? = some new := (putGet found new i).trans (if_pos rfl)

theorem acceptGet {s : System Ptr} {i : Nat} {c : Client Ptr} (found : (accept s).clients[i]? = some c) :
    (i < s.clients.length ∧ s.clients[i]? = some c) ∨
      (i = s.clients.length ∧ c.handler = .starting ∧ c.queue = [] ∧ c.sent = [] ∧ c.pushed = []) := by
  simp only [accept] at found
  cases Nat.lt_trichotomy i s.clients.length with
  | inl less =>
    rw [List.getElem?_append_left less] at found
    exact .inl ⟨less, found⟩
  | inr rest =>
    cases rest with
    | inl same =>
      subst same
      simp at found
      subst found
      exact .inr ⟨rfl, rfl, rfl, rfl, rfl⟩
    | inr more =>
      obtain ⟨inside, _⟩ := List.getElem?_eq_some_iff.mp found
      simp only [List.length_append, List.length_singleton] at inside
      omega

theorem lookupMember {map : List (String × Nat)} {key : String} {i : Nat} (found : map.lookup key = some i) :
    i ∈ map.map Prod.snd := by
  obtain ⟨front, back, same, _⟩ := List.lookup_eq_some_iff.mp found
  simp [same]

theorem acceptLookup (s : System Ptr) : (accept s).serviceMap.lookup srvc = some s.clients.length := by
  simp [accept, insert]

structure Quiet (c : Client Ptr) : Prop where
  pushed : c.pushed = []
  order : c.sent = c.inHand ++ c.queue
  unfinished : ∀ dev, c.handler ≠ .finished dev
  unended : c.handler ≠ .returned

structure Unserved (i : Nat) (s : System Ptr) : Prop where
  kept : s.panicked = false → s.returned = []
  quiet : ∀ c, s.clients[i]? = some c → Quiet c

theorem quietDelivers {contents : Ptr → Packet} {s : System Ptr} {c : Client Ptr} (quiet : Quiet c) :
    Delivers contents s c where
  order := by simp [quiet.pushed, quiet.order]
  copies := by simp [quiet.pushed]
  onlyFull := by simp [quiet.pushed]
  receiver connected := by
    cases phase : c.handler with
    | returned => exact absurd phase quiet.unended
    | crashed => simp [Client.connected, mapped, phase] at connected
    | _ => simp [Client.alive, phase]
  freed := by simp [quiet.pushed]

theorem unservedPut {s : System Ptr} {i j : Nat} {c new : Client Ptr} (inv : Unserved i s)
    (found : s.clients[j]? = some c) (next : i = j → Quiet c → Quiet new) :
    Unserved i (s.put j new) where
  kept := inv.kept
  quiet d entry := by
    rw [putGet found] at entry
    split at entry
    · rename_i same
      subst same
      cases Option.some.inj entry
      exact next rfl (inv.quiet c found)
    · exact inv.quiet d entry

theorem unservedAccept {i : Nat} {s : System Ptr} (inv : Unserved i s) : Unserved i (accept s) where
  kept := inv.kept
  quiet c found := by
    cases acceptGet found with
    | inl old => exact inv.quiet c old.2
    | inr new =>
      obtain ⟨_, handler, queue, sent, pushed⟩ := new
      exact ⟨pushed, by simp [sent, queue, Client.inHand, handler], by simp [handler], by simp [handler]⟩

theorem unservedPanic {i : Nat} {s : System Ptr} (inv : Unserved i s) (pkt : Ptr) : Unserved i (panic s pkt) :=
  ⟨by simp [panic], inv.quiet⟩

theorem unservedStep {contents : Ptr → Packet} {i : Nat} {s t : System Ptr} {a : Action Ptr}
    (inv : Unserved i s) (did : Did contents s a t) (idle : a ≠ .xmit i)
    (opened : a = .recv i → disconnected s i = false) : Unserved i t := by
  cases did with
  | accepted => exact unservedAccept inv
  | connected region found phase =>
    apply unservedPut inv found
    intro _ quiet
    exact ⟨quiet.pushed, by simpa [Client.inHand, phase] using quiet.order, by simp, by simp⟩
  | unmapped found phase =>
    apply unservedPut inv found
    intro _ quiet
    exact ⟨quiet.pushed, by simpa [Client.inHand, phase] using quiet.order, by simp, by simp⟩
  | received found phase queue =>
    apply unservedPut inv found
    intro _ quiet
    exact ⟨quiet.pushed, by simpa [Client.inHand, phase, queue] using quiet.order, by simp, by simp⟩
  | closed found phase queue gone =>
    apply unservedPut inv found
    intro same _
    subst same
    have shut : disconnected s i = true := by simpa [disconnected, found, queue] using gone
    exact absurd (opened rfl) (by simp [shut])
  | handed found phase pushed =>
    apply unservedPut inv found
    intro same _
    subst same
    exact absurd rfl idle
  | ended found phase =>
    apply unservedPut inv found
    intro _ quiet
    exact absurd phase (quiet.unfinished _)
  | unknown missing => exact unservedPanic inv _
  | refused known found dead => exact unservedPanic inv _
  | queued known found living =>
    apply unservedPut inv found
    intro _ quiet
    have order := quiet.order
    refine ⟨quiet.pushed, ?_, quiet.unfinished, quiet.unended⟩
    simp only [Client.inHand] at order ⊢
    rw [order, List.append_assoc]

theorem xmitUndelivers {contents : Ptr → Packet} {i : Nat} {s t : System Ptr} (inv : Unserved i s)
    (running : s.panicked = false) (did : Did contents s (.xmit i) t) :
    ¬ DeliversTo contents i ⟨s, .xmit i, t⟩ := by
  cases did with
  | handed found phase pushed =>
    intro delivers
    have now := delivers _ (putOwn found _)
    have leaked := now.freed _ (List.mem_append_right _ List.mem_cons_self)
    simp [System.put, inv.kept running] at leaked

theorem closedUndelivers {contents : Ptr → Packet} {i : Nat} {s t : System Ptr} (did : Did contents s (.recv i) t)
    (shut : disconnected s i = true) : ¬ DeliversTo contents i ⟨s, .recv i, t⟩ := by
  cases did with
  | received found phase queue => simp [disconnected, found, queue] at shut
  | closed found phase queue gone =>
    intro delivers
    have now := delivers _ (putOwn found _)
    exact absurd (now.receiver rfl) (by simp [Client.alive])

def KeepsReceiver (i : Nat) (e : Transition (System Ptr) (Action Ptr)) : Prop :=
  e.act ≠ .xmit i ∧ (e.act = .recv i → disconnected e.before i = false)

theorem deliversStep {contents : Ptr → Packet} {i : Nat} {s t : System Ptr} {a : Action Ptr} (inv : Unserved i s)
    (running : s.panicked = false) (did : Did contents s a t) :
    (DeliversTo contents i ⟨s, a, t⟩ ↔ KeepsReceiver i ⟨s, a, t⟩) ∧ (KeepsReceiver i ⟨s, a, t⟩ → Unserved i t) := by
  have keeps : KeepsReceiver i ⟨s, a, t⟩ → Unserved i t := fun kept => unservedStep inv did kept.1 kept.2
  refine ⟨⟨?_, fun kept c found => quietDelivers ((keeps kept).quiet c found)⟩, keeps⟩
  intro delivers
  refine ⟨?_, ?_⟩
  · rintro rfl
    exact xmitUndelivers inv running did delivers
  · rintro rfl
    by_contra shut
    exact closedUndelivers did (by simpa using shut) delivers

/- The first packet handed to the client is also the last: its buffer is never returned,
and the handler ends. -/
theorem deliversIffReceiverKept (contents : Ptr → Packet) (i : Nat) (acts : List (Action Ptr))
    (es : List (Transition (System Ptr) (Action Ptr))) (u : System Ptr)
    (ran : run (traced (step contents)) boot acts = some (es, u)) :
    (∀ e ∈ es, DeliversTo contents i e) ↔ ∀ e ∈ es, KeepsReceiver i e := by
  apply runAgrees (Unserved i) _ ⟨fun _ => rfl, by simp [boot]⟩ ran
  intro s a t inv ok
  obtain ⟨running, did⟩ := stepDid ok
  exact deliversStep inv running did

def zeros : Nat → Packet := fun _ => Vector.replicate mtu 0

def region : Option (Int × Shm) := some (0, fun _ => 0)

def waitingPacket : List (Action Nat) := [.accept, .connect 0 region, .dispatch 7, .recv 0]

theorem deliversWhileWaiting :
    ∃ es u, run (traced (step zeros)) boot waitingPacket = some (es, u) ∧ ∀ e ∈ es, DeliversTo zeros 0 e :=
  ⟨_, _, rfl, (deliversIffReceiverKept zeros 0 waitingPacket _ _ rfl).mpr (by
    simp [KeepsReceiver, disconnected, boot, accept, System.put])⟩

def twoPackets : List (Action Nat) :=
  [.accept, .connect 0 region, .dispatch 7, .dispatch 8, .recv 0, .xmit 0, .finish 0]

theorem secondPacketStays :
    ∃ es u c, run (traced (step zeros)) boot twoPackets = some (es, u) ∧ u.clients[0]? = some c ∧
      c.sent = [7, 8] ∧ c.pushed.map Pushed.mbuf = [7] ∧ c.queue = [8] ∧ c.alive = false ∧
      u.serviceMap = [(srvc, 0)] ∧ u.returned = [] ∧ ¬ ∀ e ∈ es, DeliversTo zeros 0 e := by
  refine ⟨_, _, _, rfl, rfl, rfl, rfl, rfl, rfl, rfl, rfl, fun all => ?_⟩
  exact absurd ((all _ (List.getLast_mem (by simp)) _ rfl).receiver rfl) (by decide)

/- A later connection replaces the sender, and the handler that waits for it returns. -/
example : ((run (traced (step zeros)) boot [.accept, .connect 0 region, .accept, .recv 0]).bind
    (fun r => r.2.clients[0]?)).map (fun c => (c.connected, c.alive)) = some (true, false) := rfl

def Action.accepts : Action Ptr → Bool
  | .accept => true
  | _ => false

/- The steps by which a handler gives up its receiver while its sender is in the map. -/
def Action.ends (k : Nat) : Action Ptr → Prop
  | .finish i => i = k
  | .connect i none => i = k
  | _ => False

def Served (past : List (Action Ptr)) : Prop :=
  ∃ k, past.countP Action.accepts = k + 1 ∧ ∀ a ∈ past, ¬ a.ends k

def DispatchesServed (acts : List (Action Ptr)) : Prop :=
  ∀ front pkt, front ++ [.dispatch pkt] <+: acts → Served front

structure Past (past : List (Action Ptr)) (s : System Ptr) : Prop where
  count : s.clients.length = past.countP Action.accepts
  last : ∀ i, s.serviceMap.lookup srvc = some i ↔ i + 1 = s.clients.length
  ended : ∀ k c, s.clients[k]? = some c → k + 1 = s.clients.length →
    (c.alive = true ↔ ∀ a ∈ past, ¬ a.ends k)
  early : ∀ k, ∀ a ∈ past, a.ends k → k < s.clients.length

theorem pastPut {past : List (Action Ptr)} {s : System Ptr} {j : Nat} {c new : Client Ptr} {a : Action Ptr}
    (inv : Past past s) (found : s.clients[j]? = some c) (other : a.accepts = false)
    (mine : ∀ k, a.ends k → k = j)
    (alive : j + 1 = s.clients.length → (new.alive = true ↔ c.alive = true ∧ ¬ a.ends j)) :
    Past (past ++ [a]) (s.put j new) where
  count := by simp [System.put, inv.count, other]
  last := by simpa [System.put] using inv.last
  ended k d entry top := by
    simp only [System.put, List.length_set] at top
    rw [putGet found] at entry
    simp only [List.forall_mem_append, List.forall_mem_singleton]
    split at entry
    · rename_i same
      subst same
      cases Option.some.inj entry
      rw [alive top, inv.ended k c found top]
    · rename_i different
      rw [inv.ended k d entry top]
      exact (and_iff_left (fun ends => different (mine k ends))).symm
  early k b member ends := by
    obtain ⟨inside, _⟩ := List.getElem?_eq_some_iff.mp found
    simp only [System.put, List.length_set]
    cases List.mem_append.mp member with
    | inl before => exact inv.early k b before ends
    | inr now =>
      cases List.mem_singleton.mp now
      cases mine k ends
      exact inside

theorem pastAccept {past : List (Action Ptr)} {s : System Ptr} (inv : Past past s) :
    Past (past ++ [.accept]) (accept s) where
  count := by simp [accept, inv.count, Action.accepts]
  last i := by
    rw [acceptLookup]
    simp [accept, eq_comm]
  ended k c found top := by
    cases acceptGet found with
    | inl old =>
      simp [accept] at top
      omega
    | inr new =>
      obtain ⟨same, handler, _⟩ := new
      simp only [Client.alive, handler, List.forall_mem_append, List.forall_mem_singleton, Action.ends,
        not_false_eq_true, and_true, true_iff]
      intro a member ends
      have inside := inv.early k a member ends
      omega
  early k a member ends := by
    cases List.mem_append.mp member with
    | inl before =>
      have inside := inv.early k a before ends
      simp only [accept, List.length_append]
      omega
    | inr now =>
      cases List.mem_singleton.mp now
      exact ends.elim

theorem pastPanic {past : List (Action Ptr)} {s : System Ptr} {pkt : Ptr} (inv : Past past s) :
    Past (past ++ [.dispatch pkt]) (panic s pkt) where
  count := by simp [panic, inv.count, Action.accepts]
  last := inv.last
  ended k c found top := by
    rw [inv.ended k c found top, List.forall_mem_append, List.forall_mem_singleton]
    exact (and_iff_left id).symm
  early k a member ends := by
    cases List.mem_append.mp member with
    | inl before => exact inv.early k a before ends
    | inr now =>
      cases List.mem_singleton.mp now
      exact ends.elim

theorem pastStep {contents : Ptr → Packet} {past : List (Action Ptr)} {s t : System Ptr} {a : Action Ptr}
    (inv : Past past s) (did : Did contents s a t) : Past (past ++ [a]) t := by
  cases did with
  | accepted => exact pastAccept inv
  | connected region found phase =>
    exact pastPut inv found rfl (fun _ => False.elim) (fun _ => by simp [Client.alive, phase, Action.ends])
  | unmapped found phase =>
    exact pastPut inv found rfl (fun _ ends => Eq.symm ends) (fun _ => by simp [Client.alive, Action.ends])
  | received found phase queue =>
    exact pastPut inv found rfl (fun _ => False.elim) (fun _ => by simp [Client.alive, phase, Action.ends])
  | closed found phase queue gone =>
    refine pastPut inv found rfl (fun _ => False.elim) (fun top => ?_)
    exact absurd (lookupMember ((inv.last _).mpr top)) gone
  | handed found phase pushed =>
    exact pastPut inv found rfl (fun _ => False.elim) (fun _ => by simp [Client.alive, phase, Action.ends])
  | ended found phase =>
    exact pastPut inv found rfl (fun _ ends => Eq.symm ends) (fun _ => by simp [Client.alive, Action.ends])
  | unknown missing => exact pastPanic inv
  | refused known found dead => exact pastPanic inv
  | queued known found living =>
    exact pastPut inv found rfl (fun _ => False.elim) (fun _ => by simp [Client.alive, Action.ends])

theorem servedIffAlive {past : List (Action Ptr)} {s : System Ptr} {i : Nat} {c : Client Ptr} (inv : Past past s)
    (known : s.serviceMap.lookup srvc = some i) (found : s.clients[i]? = some c) :
    Served past ↔ c.alive = true := by
  have top := (inv.last i).mp known
  have length := inv.count
  rw [inv.ended i c found top]
  constructor
  · rintro ⟨k, count, running⟩
    have same : k = i := by omega
    exact same ▸ running
  · exact fun running => ⟨i, by rw [← length, top], running⟩

theorem panicsIff {contents : Ptr → Packet} {past : List (Action Ptr)} {s t : System Ptr} {a : Action Ptr}
    (inv : Past past s) (running : s.panicked = false) (did : Did contents s a t) :
    t.panicked = false ↔ ∀ pkt, a = .dispatch pkt → Served past := by
  cases did with
  | unknown missing =>
    have unserved : ¬ Served past := by
      rintro ⟨k, count, _⟩
      have known := (inv.last k).mpr (by rw [inv.count, count])
      rw [missing] at known
      contradiction
    simp [panic, unserved]
  | refused known found dead => simp [panic, servedIffAlive inv known found, dead]
  | queued known found living => simp [System.put, running, servedIffAlive inv known found, living]
  | _ => simpa [System.put, accept] using running

theorem dispatchesServedSnoc (acts : List (Action Ptr)) (a : Action Ptr) :
    DispatchesServed (acts ++ [a]) ↔ DispatchesServed acts ∧ ∀ pkt, a = .dispatch pkt → Served acts := by
  simp only [DispatchesServed, List.prefix_concat_iff]
  constructor
  · intro served
    exact ⟨fun front pkt inside => served front pkt (.inr inside),
      fun pkt same => served acts pkt (.inl (by rw [same]))⟩
  · rintro ⟨before, now⟩ front pkt (whole | inside)
    · obtain ⟨same, last⟩ := List.append_inj' whole rfl
      rw [same]
      exact now pkt (List.cons.inj last).1.symm
    · exact before front pkt inside

theorem runPast {contents : Ptr → Packet} {acts : List (Action Ptr)}
    {es : List (Transition (System Ptr) (Action Ptr))} {u : System Ptr}
    (ran : run (traced (step contents)) boot acts = some (es, u)) : Past acts u := by
  have past := runInvariant (fun es s => Past (es.map Transition.act) s)
    (fun {past s a e t} inv ok => by
      obtain ⟨now, rfl⟩ := tracedStep ok
      simpa using pastStep inv (stepDid now).2)
    ⟨rfl, by simp [boot], by simp [boot], by simp⟩ ran
  rwa [tracedActs ran] at past

theorem noPanicIffDispatchesServed (contents : Ptr → Packet) (acts : List (Action Ptr))
    (es : List (Transition (System Ptr) (Action Ptr))) (u : System Ptr)
    (ran : run (traced (step contents)) boot acts = some (es, u)) :
    (∀ e ∈ es, e.after.panicked = false) ↔ DispatchesServed acts := by
  induction acts using List.reverseRecOn generalizing es u with
  | nil =>
    simp [(runNil ran).1, DispatchesServed]
  | append_singleton acts a ih =>
    obtain ⟨before, t, e, first, last, rfl⟩ := runSnoc ran
    obtain ⟨now, rfl⟩ := tracedStep last
    have past := runPast first
    rw [List.forall_mem_append, List.forall_mem_singleton, dispatchesServedSnoc, ih before t first]
    obtain ⟨running, did⟩ := stepDid now
    exact and_congr_right (fun _ => panicsIff past running did)

theorem noPanicWhileWaiting :
    ∃ es u, run (traced (step zeros)) boot waitingPacket = some (es, u) ∧
      ((∀ e ∈ es, e.after.panicked = false) ↔ DispatchesServed waitingPacket) :=
  ⟨_, _, rfl, noPanicIffDispatchesServed zeros waitingPacket _ _ rfl⟩

theorem earlyDispatchPanics :
    ∃ es u, run (traced (step zeros)) boot [.dispatch 7] = some (es, u) ∧ u.panicked = true ∧
      ¬ ∀ e ∈ es, e.after.panicked = false :=
  ⟨_, _, rfl, rfl, by simp [panic]⟩

end Vdp.Dispatch
