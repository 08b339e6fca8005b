import Mathlib.Data.List.Count
import Vdp.Memring

/-! Both `main` functions from their first call to their last. The engine unwraps every call and
waits for a message before it makes the rings; the mux starts its listener in a scope, and a
scope joins its threads before it returns. -/
namespace Vdp.Startup
open Lib.Run (Transition run runInvariant traced tracedStep)
open Memring (Inv freeAll)

inductive EngineAt where
  | ealInit
  | mempoolNew
  | portNew
  | portConfigure
  | portStart
  | socket
  | bind
  | recv
  | engineToClient
  | clientToEngine
  | setHandler
  | looping
  | exited
  | panicked
  deriving DecidableEq, Repr

def EngineAt.next : EngineAt → EngineAt
  | .ealInit => .mempoolNew
  | .mempoolNew => .portNew
  | .portNew => .portConfigure
  | .portConfigure => .portStart
  | .portStart => .socket
  | .socket => .bind
  | .bind => .recv
  | .recv => .engineToClient
  | .engineToClient => .clientToEngine
  | .clientToEngine => .setHandler
  | .setHandler => .looping
  | at_ => at_

/- `incoming` never ends, so nothing leads to `ended`. -/
inductive ListenerAt where
  | unborn
  | binding
  | accepting
  | ended
  | panicked
  deriving DecidableEq, Repr

inductive MuxAt where
  | removeFile
  | scope
  | muxNew
  | lookups
  | ealInit
  | setHandler
  | looping
  | panicked
  deriving DecidableEq, Repr

structure State where
  engine : EngineAt
  objects : Memring.System
  messages : Nat
  keepRunning : Bool
  mux : MuxAt
  listener : ListenerAt
  clients : Nat

inductive Action where
  | engine (ok : Bool)
  | message
  | signal
  | mux (ok : Bool)
  | listener (ok : Bool)
  deriving DecidableEq, Repr

/- Unwinding drops the channel and then the pool. -/
def panic (s : State) : State :=
  { s with
    engine := .panicked
    objects := { s.objects with
      dpdk := freeAll s.objects.dpdk (s.objects.engine.handles.map Prod.snd)
      engine := .stopped } }

def makes (ok : Bool) (s : State) : Option State :=
  (Memring.step s.objects (.engine ok)).map (fun objects =>
    { s with objects, engine := if objects.engine = .stopped then .panicked else s.engine.next })

/- After the loop, `_pkt_stop_and_close_ports` exits. `eal_cleanup` and the drops come behind it. -/
def engineStep (ok : Bool) (s : State) : Option State := match s.engine with
  | .mempoolNew => makes ok s
  | .engineToClient => makes ok s
  | .clientToEngine => makes ok s
  | .recv =>
    if ok then
      if s.messages = 0 then none else some { s with messages := s.messages - 1, engine := s.engine.next }
    else some (panic s)
  | .looping => some (if s.keepRunning then s else { s with engine := .exited })
  | .exited => none
  | .panicked => none
  | at_ => some (if ok then { s with engine := at_.next } else panic s)

def muxStep (ok : Bool) (s : State) : Option State := match s.mux with
  | .removeFile => some { s with mux := .scope, listener := .binding }
  | .scope => match s.listener with
    | .ended => some { s with mux := .muxNew }
    | .panicked => some { s with mux := .panicked }
    | _ => none
  | .muxNew => (Memring.step s.objects (.start 0 true)).map (fun objects => { s with objects, mux := .lookups })
  | .lookups => match s.objects.attempts 0 with
    | .mux _ => some { s with mux := .ealInit }
    | .failed => some { s with mux := .panicked }
    | _ => (Memring.step s.objects (.lookup 0)).map (fun objects => { s with objects })
  | .ealInit =>
    if ok then some { s with mux := .setHandler }
    else (Memring.step s.objects (.drop 0)).map (fun objects => { s with objects, mux := .panicked })
  | .setHandler =>
    if ok then some { s with mux := .looping }
    else (Memring.step s.objects (.drop 0)).map (fun objects => { s with objects, mux := .panicked })
  | .looping => some s
  | .panicked => none

def listenerStep (ok : Bool) (s : State) : Option State := match s.listener with
  | .binding => some { s with listener := if ok then .accepting else .panicked }
  | .accepting => some (if ok then { s with clients := s.clients + 1 } else s)
  | _ => none

def step (s : State) : Action → Option State
  | .engine ok => engineStep ok s
  | .message => some { s with messages := s.messages + 1 }
  | .signal => if s.engine = .looping then some { s with keepRunning := false } else none
  | .mux ok => muxStep ok s
  | .listener ok => listenerStep ok s

def boot : State := ⟨.ealInit, Memring.boot, 0, true, .removeFile, .unborn, 0⟩

inductive Stage : EngineAt → Memring.Engine → Prop where
  | ealInit : Stage .ealInit .starting
  | mempoolNew : Stage .mempoolNew .starting
  | portNew {p} : Stage .portNew (.pooled p)
  | portConfigure {p} : Stage .portConfigure (.pooled p)
  | portStart {p} : Stage .portStart (.pooled p)
  | socket {p} : Stage .socket (.pooled p)
  | bind {p} : Stage .bind (.pooled p)
  | recv {p} : Stage .recv (.pooled p)
  | engineToClient {p} : Stage .engineToClient (.pooled p)
  | clientToEngine {r p} : Stage .clientToEngine (.oneRing r p)
  | setHandler {q r p} : Stage .setHandler (.running q r p)
  | looping {q r p} : Stage .looping (.running q r p)
  | exited {q r p} : Stage .exited (.running q r p)
  | panicked : Stage .panicked .stopped

structure Objects (s : State) : Prop where
  stage : Stage s.engine s.objects.engine
  inv : Inv s.objects
  kept : s.engine ≠ .panicked → s.objects.dpdk.freed = []
  counted : s.objects.dpdk.freed.length + s.objects.engine.handles.length = s.objects.dpdk.fresh
  alone : ∀ i, s.objects.attempts i = .idle

structure Scoped (s : State) : Prop where
  mux : s.mux = .removeFile ∨ s.mux = .scope ∨ s.mux = .panicked ∧ s.listener = .panicked
  listener : s.listener ≠ .ended

def waited : EngineAt → Nat
  | .engineToClient => 1
  | .clientToEngine => 1
  | .setHandler => 1
  | .looping => 1
  | .exited => 1
  | _ => 0

section Steps
variable {s t : State}

theorem panicObjects (objects : Objects s) : Objects (panic s) where
  stage := .panicked
  inv := Memring.stoppedInv objects.inv rfl rfl rfl
  kept := by simp [panic]
  counted := by
    have before := objects.counted
    have none : Memring.Engine.handles .stopped = [] := rfl
    simp only [panic, Memring.freeAllFreed, Memring.freeAllFresh, none, List.length_append, List.length_map,
      List.length_nil]
    omega
  alone := objects.alone

theorem createdFreed {d e : Memring.Dpdk} {name : Memring.Name} {room : Bool} {id : Nat}
    (made : d.create name room = some (id, e)) : e.freed = d.freed := by
  obtain ⟨_, same⟩ := Memring.createSome made
  cases same
  rfl

theorem makesStage {ok : Bool} {r : Memring.Dpdk × Memring.Engine} (stage : Stage s.engine s.objects.engine)
    (calls : s.engine = .mempoolNew ∨ s.engine = .engineToClient ∨ s.engine = .clientToEngine)
    (made : s.objects.engine.step s.objects.dpdk ok = some r) :
    r.2 = .stopped ∨ r.2 ≠ .stopped ∧ Stage s.engine.next r.2 ∧ r.1.freed = s.objects.dpdk.freed := by
  generalize s.engine = at_, s.objects.engine = holds at stage calls made ⊢
  rcases calls with rfl | rfl | rfl
  · cases stage
    simp only [Memring.Engine.step, Memring.mempoolNew] at made
    split at made <;> cases made
    · exact .inr ⟨by rintro ⟨⟩, .portNew, createdFreed ‹_›⟩
    · exact .inl rfl
  · cases stage
    simp only [Memring.Engine.step, Memring.ringNew] at made
    split at made <;> cases made
    · exact .inr ⟨by rintro ⟨⟩, .clientToEngine, createdFreed ‹_›⟩
    · exact .inl rfl
  · cases stage
    simp only [Memring.Engine.step, Memring.ringNew] at made
    split at made <;> cases made
    · exact .inr ⟨by rintro ⟨⟩, .setHandler, createdFreed ‹_›⟩
    · exact .inl rfl

theorem makesObjects {ok : Bool} (objects : Objects s)
    (calls : s.engine = .mempoolNew ∨ s.engine = .engineToClient ∨ s.engine = .clientToEngine)
    (made : makes ok s = some t) : Objects t := by
  obtain ⟨_, now, same⟩ := Option.map_eq_some_iff.mp made
  subst same
  have effect := Memring.engineEffect now
  have inv := Memring.effectInv objects.inv effect trivial
  obtain ⟨⟨dpdk, holds⟩, stepped, same⟩ := Option.map_eq_some_iff.mp now
  subst same
  have counted : dpdk.freed.length + holds.handles.length = dpdk.fresh := by
    have before := objects.counted
    cases effect with
    | created name unused made handles _ _ _ =>
      simp only at made handles
      rw [made, handles, List.length_cons]
      exact congrArg (· + 1) before
    | stopped freed handles _ _ _ =>
      simp only at freed handles
      rw [freed, handles, Memring.freeAllFreed, Memring.freeAllFresh, List.length_append, List.length_map]
      exact before
    | looked same engine _ _ =>
      simp only at same engine
      rw [same, engine]
      exact before
    | released i h ids held gone freed engine breaks => exact absurd trivial breaks
  rcases makesStage objects.stage calls stepped with stopped | ⟨going, stage, freed⟩
  · simp only at stopped
    subst stopped
    exact ⟨.panicked, inv, fun other => absurd rfl other, counted, objects.alone⟩
  · simp only at going stage freed
    simp only [if_neg going]
    refine ⟨stage, inv, fun _ => ?_, counted, objects.alone⟩
    rw [freed]
    apply objects.kept
    rcases calls with at_ | at_ | at_ <;> rw [at_] <;> decide

theorem passObjects (objects : Objects s) {at_ : EngineAt} {messages : Nat} {keepRunning : Bool}
    (stage : Stage at_ s.objects.engine) (going : s.engine ≠ .panicked) :
    Objects { s with engine := at_, messages, keepRunning } :=
  ⟨stage, objects.inv, fun _ => objects.kept going, objects.counted, objects.alone⟩

theorem passStage {at_ : EngineAt} {holds : Memring.Engine} (stage : Stage at_ holds)
    (other : at_ ≠ .mempoolNew ∧ at_ ≠ .engineToClient ∧ at_ ≠ .clientToEngine) : Stage at_.next holds := by
  cases stage with
  | ealInit => exact .mempoolNew
  | portNew => exact .portConfigure
  | portConfigure => exact .portStart
  | portStart => exact .socket
  | socket => exact .bind
  | bind => exact .recv
  | recv => exact .engineToClient
  | setHandler => exact .looping
  | looping => exact .looping
  | exited => exact .exited
  | panicked => exact .panicked
  | mempoolNew => exact absurd rfl other.1
  | engineToClient => exact absurd rfl other.2.1
  | clientToEngine => exact absurd rfl other.2.2

theorem sameObjects (objects : Objects s) (engine : t.engine = s.engine) (same : t.objects = s.objects) : Objects t where
  stage := by rw [engine, same]; exact objects.stage
  inv := by rw [same]; exact objects.inv
  kept := by rw [engine, same]; exact objects.kept
  counted := by rw [same]; exact objects.counted
  alone := by rw [same]; exact objects.alone

theorem engineObjects {ok : Bool} (objects : Objects s) (now : engineStep ok s = some t) : Objects t := by
  have stage := objects.stage
  unfold engineStep at now
  split at now
  case h_1 at_ => exact makesObjects objects (.inl at_) now
  case h_2 at_ => exact makesObjects objects (.inr (.inl at_)) now
  case h_3 at_ => exact makesObjects objects (.inr (.inr at_)) now
  case h_4 at_ =>
    split at now
    · split at now <;> cases now
      exact passObjects objects (passStage stage (by rw [at_]; decide)) (by rw [at_]; decide)
    · cases now
      exact panicObjects objects
  case h_5 at_ =>
    cases now
    split
    · exact objects
    · rw [at_] at stage
      refine passObjects objects ?_ (by rw [at_]; decide)
      generalize s.objects.engine = holds at stage
      cases stage
      exact .exited
  case h_6 => cases now
  case h_7 => cases now
  case h_8 made first second _ _ _ panicked =>
    split at now <;> cases now
    · exact passObjects objects (passStage stage ⟨made, first, second⟩) panicked
    · exact panicObjects objects

theorem muxScoped {ok : Bool} (inside : Scoped s) (now : muxStep ok s = some t) :
    Scoped t ∧ t.engine = s.engine ∧ t.objects = s.objects ∧ t.messages = s.messages := by
  obtain ⟨first | scope | ⟨panicked, _⟩, endless⟩ := inside
  · simp only [muxStep, first] at now
    cases now
    exact ⟨⟨.inr (.inl rfl), by rintro ⟨⟩⟩, rfl, rfl, rfl⟩
  · simp only [muxStep, scope] at now
    split at now <;> try contradiction
    rename_i panicked
    cases now
    exact ⟨⟨.inr (.inr ⟨rfl, panicked⟩), endless⟩, rfl, rfl, rfl⟩
  · simp only [muxStep, panicked] at now
    cases now

theorem listenerScoped {ok : Bool} (inside : Scoped s) (now : listenerStep ok s = some t) :
    Scoped t ∧ t.engine = s.engine ∧ t.objects = s.objects ∧ t.messages = s.messages := by
  obtain ⟨mux, endless⟩ := inside
  unfold listenerStep at now
  split at now <;> try contradiction
  case h_1 binding =>
    cases now
    refine ⟨⟨?_, by cases ok <;> rintro ⟨⟩⟩, rfl, rfl, rfl⟩
    refine mux.imp id (Or.imp id ?_)
    rintro ⟨_, panicked⟩
    rw [binding] at panicked
    cases panicked
  case h_2 accepting =>
    cases now
    split <;> exact ⟨⟨mux, endless⟩, rfl, rfl, rfl⟩

end Steps

section Runs

def arrivals (es : List (Transition State Action)) : Nat := (es.filter (fun e => e.act = .message)).length

structure Brought (es : List (Transition State Action)) (s : State) : Prop where
  objects : Objects s
  inside : Scoped s
  messages : s.messages + waited s.engine ≤ arrivals es

theorem arrivalsNext (es : List (Transition State Action)) (e : Transition State Action) :
    arrivals (es ++ [e]) = arrivals es + if e.act = .message then 1 else 0 := by
  rw [arrivals, List.filter_append, List.length_append, ← arrivals]
  congr 1
  by_cases message : e.act = .message <;> simp [message]

theorem waitedNext {at_ : EngineAt} (other : at_ ≠ .recv) : waited at_.next ≤ waited at_ := by
  cases at_ <;> first | exact Nat.le_refl _ | exact absurd rfl other

theorem makesFrame {s t : State} {ok : Bool} (other : s.engine ≠ .recv) (made : makes ok s = some t) :
    t.mux = s.mux ∧ t.listener = s.listener ∧ t.messages + waited t.engine ≤ s.messages + waited s.engine := by
  obtain ⟨objects, _, same⟩ := Option.map_eq_some_iff.mp made
  subst same
  refine ⟨rfl, rfl, Nat.add_le_add_left ?_ _⟩
  simp only
  split
  · exact Nat.zero_le _
  · exact waitedNext other

theorem engineFrame {s t : State} {ok : Bool} (now : engineStep ok s = some t) :
    t.mux = s.mux ∧ t.listener = s.listener ∧ t.messages + waited t.engine ≤ s.messages + waited s.engine := by
  have panics : (panic s).messages + waited (panic s).engine ≤ s.messages + waited s.engine :=
    Nat.add_le_add_left (Nat.zero_le _) _
  unfold engineStep at now
  split at now
  case h_1 at_ => exact makesFrame (by rw [at_]; decide) now
  case h_2 at_ => exact makesFrame (by rw [at_]; decide) now
  case h_3 at_ => exact makesFrame (by rw [at_]; decide) now
  case h_4 at_ =>
    split at now
    · split at now <;> cases now
      refine ⟨rfl, rfl, ?_⟩
      simp only [at_, EngineAt.next, waited]
      omega
    · cases now
      exact ⟨rfl, rfl, panics⟩
  case h_5 at_ =>
    cases now
    split
    · exact ⟨rfl, rfl, Nat.le_refl _⟩
    · refine ⟨rfl, rfl, ?_⟩
      simp only [at_, waited]
      exact Nat.le_refl _
  case h_6 => cases now
  case h_7 => cases now
  case h_8 _ _ _ other _ _ _ =>
    split at now <;> cases now
    · exact ⟨rfl, rfl, Nat.add_le_add_left (waitedNext other) _⟩
    · exact ⟨rfl, rfl, panics⟩

theorem stepBrought {s t : State} {a : Action} {es : List (Transition State Action)} (brought : Brought es s)
    (now : step s a = some t) : Brought (es ++ [⟨s, a, t⟩]) t := by
  obtain ⟨objects, inside, messages⟩ := brought
  have more : arrivals es ≤ arrivals (es ++ [⟨s, a, t⟩]) := by
    rw [arrivalsNext]
    exact Nat.le_add_right _ _
  cases a with
  | engine ok =>
    obtain ⟨mux, listener, fewer⟩ := engineFrame now
    refine ⟨engineObjects objects now, ⟨?_, ?_⟩, Nat.le_trans fewer (Nat.le_trans messages more)⟩
    · rw [mux, listener]
      exact inside.mux
    · rw [listener]
      exact inside.listener
  | message =>
    cases now
    refine ⟨⟨objects.stage, objects.inv, objects.kept, objects.counted, objects.alone⟩, ⟨inside.mux, inside.listener⟩, ?_⟩
    rw [arrivalsNext]
    simp only [if_true]
    omega
  | signal =>
    simp only [step] at now
    split at now <;> cases now
    rename_i looping
    exact ⟨passObjects objects objects.stage (by rw [looping]; decide), ⟨inside.mux, inside.listener⟩,
      Nat.le_trans messages more⟩
  | mux ok =>
    obtain ⟨still, engine, same, unread⟩ := muxScoped inside now
    exact ⟨sameObjects objects engine same, still, by rw [unread, engine]; exact Nat.le_trans messages more⟩
  | listener ok =>
    obtain ⟨still, engine, same, unread⟩ := listenerScoped inside now
    exact ⟨sameObjects objects engine same, still, by rw [unread, engine]; exact Nat.le_trans messages more⟩

theorem bootBrought : Brought [] boot where
  objects := ⟨.ealInit, Memring.invBoot, fun _ => rfl, rfl, fun _ => rfl⟩
  inside := ⟨.inl rfl, by rintro ⟨⟩⟩
  messages := Nat.le_refl 0

end Runs

end Vdp.Startup
