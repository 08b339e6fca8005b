import Vdp.Dispatch
import Vdp.FdpassRuns

/-! The handlers of all clients in the one process of the mux. Each reads the descriptor of its
region from the stream of its own connection, and all of them install into one table. The
connections themselves are among what the mux sets besides. -/
namespace Vdp.MuxClients
open Lib.Run (Transition run runInvariant traced tracedStep)
open Fdpass (World Tables RecvChoice)
open Memenpsf (Packet Shm)
open Dispatch (mapped)
open Dispatch.Client (connected)

structure State (File Ptr : Type) where
  clients : Dispatch.System Ptr
  senders : Nat → Int → Option File
  streams : Nat → List (UInt8 × List File)
  table : Int → Option File
  held : List (Int × File)
  lost : List (Int × File)

/- `connect` is `MemEnpsf::new` up to the mapping; the drop of the descriptor at its end is an
action on the stream, as are the calls of the peer. -/
inductive Action (File Ptr : Type) where
  | connect (i : Nat) (choice : RecvChoice) (region : Int × Shm)
  | stream (i : Nat) (a : Fdpass.Action File)
  | handler (a : Dispatch.Action Ptr)

section Code
variable {File Ptr : Type}

def State.world (s : State File Ptr) (i : Nat) : World File := ⟨s.senders i, s.streams i, s.table, s.held, s.lost⟩

def State.back (s : State File Ptr) (i : Nat) (w : World File) : State File Ptr :=
  { s with
    senders := Function.update s.senders i w.sender
    streams := Function.update s.streams i w.stream
    table := w.receiver
    held := w.held
    lost := w.lost }

variable (limit : Nat) (contents : Ptr → Packet)

def connect (s : State File Ptr) (i : Nat) (choice : RecvChoice) (region : Int × Shm) : Option (State File Ptr) := do
  let (e, w) ← Fdpass.step limit (s.world i) (.recvFd 0 [] choice)
  let clients ← Dispatch.step contents s.clients (.connect i (if Fdpass.succeeds e then some region else none))
  some { s.back i w with clients }

def streamStep (s : State File Ptr) (i : Nat) : Fdpass.Action File → Option (State File Ptr)
  | .recvFd _ _ _ => none
  | a => (Fdpass.step limit (s.world i) a).map (fun r => s.back i r.2)

def handlerStep (s : State File Ptr) : Dispatch.Action Ptr → Option (State File Ptr)
  | .connect _ _ => none
  | a => (Dispatch.step contents s.clients a).map (fun clients => { s with clients })

def step (s : State File Ptr) : Action File Ptr → Option (State File Ptr)
  | .connect i choice region => connect limit contents s i choice region
  | .stream i a => streamStep limit s i a
  | .handler a => handlerStep contents s a

def boot (senders : Nat → Int → Option File) (table : Int → Option File) : State File Ptr :=
  ⟨Dispatch.boot, senders, fun _ => [], table, [], []⟩

end Code

section Clients
variable {Ptr : Type}

end Clients

section Runs
variable {File Ptr : Type} {limit : Nat} {contents : Ptr → Packet}

end Runs

section Samples

end Samples

end Vdp.MuxClients
