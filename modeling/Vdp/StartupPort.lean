import Vdp.PortConfigure
import Vdp.Startup

/-! The engine asks for one core and declares one queue, but sets up two. A device that was told
of one refuses the other, and the engine unwraps. -/
namespace Vdp.Startup
open Lib.Run (Transition run runInvariant traced tracedStep)
open PortConfigure (Bindings Bounded Driver Port L3enginelib.configure configureOk configuredBelow toEven queueDriver
  queueDriverCooperative cooperativeBounded sampleBindings samplePort)

def cores : List Nat := [0]

section Device
variable {RxConf TxConf Pool : Type} (b : Bindings) (driver : Driver RxConf TxConf Pool) (port : Port RxConf TxConf)
  (mempool : Pool)

/- Where the step is the call of `configure`, it ends as that does, whatever the device was asked
before. -/
def Configures (e : Transition State Action) : Prop :=
  ∀ ok, e.before.engine = .portConfigure → e.act = .engine ok → ∃ past, ok = true ↔
    ((L3enginelib.configure b driver port mempool (UInt16.ofNat cores.length)).run.run past).1 = .ok ()

variable {b driver port mempool}

theorem configureRefused (bounded : Bounded driver) (past : Lib.Calls.Log _ _) :
    ((L3enginelib.configure b driver port mempool (UInt16.ofNat cores.length)).run.run past).1 ≠ .ok () := by
  intro ok
  obtain ⟨events, _, configured⟩ := configureOk (b := b) (Prod.ext ok rfl)
  have second : (1 : UInt16) < toEven (UInt16.ofNat cores.length) := by decide
  have declared : (1 : UInt16) < UInt16.ofNat cores.length := configuredBelow bounded configured second
  exact absurd declared (by decide)

theorem configuresElsewhere {e : Transition State Action} (elsewhere : e.before.engine ≠ .portConfigure) :
    Configures b driver port mempool e := fun _ at_ => absurd at_ elsewhere

theorem configuresRefused (bounded : Bounded driver) {e : Transition State Action} (call : e.act = .engine false) :
    Configures b driver port mempool e := by
  intro ok _ same
  cases call.symm.trans same
  exact ⟨[], by rintro ⟨⟩, fun good => absurd good (configureRefused bounded [])⟩

end Device

structure Early (s : State) : Prop where
  engine : s.engine = .ealInit ∨ s.engine = .mempoolNew ∨ s.engine = .portNew ∨ s.engine = .portConfigure ∨
    s.engine = .panicked
  made : s.objects.dpdk.fresh ≤ 1

section Steps
variable {s t : State}

theorem makesEarly {ok : Bool} (objects : Objects s) (at_ : s.engine = .mempoolNew) (made : makes ok s = some t) :
    Early t ∧ t.messages = s.messages := by
  obtain ⟨next, now, same⟩ := Option.map_eq_some_iff.mp made
  subst same
  have stage := objects.stage
  have counted := objects.counted
  rw [objects.kept (by rw [at_]; decide)] at counted
  rw [at_] at stage
  obtain ⟨⟨dpdk, holds⟩, stepped, same⟩ := Option.map_eq_some_iff.mp now
  subst same
  generalize s.objects.engine = before at stage counted stepped
  cases stage
  have none : s.objects.dpdk.fresh = 0 := counted.symm
  simp only [Memring.Engine.step, Memring.mempoolNew] at stepped
  split at stepped <;> cases stepped
  · rename_i pool created
    obtain ⟨_, same⟩ := Memring.createSome created
    cases same
    exact ⟨⟨by simp [at_, EngineAt.next], by simp [none]⟩, rfl⟩
  · exact ⟨⟨by simp, by simp [none]⟩, rfl⟩

theorem panicEarly (early : Early s) : Early (panic s) where
  engine := by simp [panic]
  made := by
    simp only [panic, Memring.freeAllFresh]
    exact early.made

theorem engineEarly {ok : Bool} (objects : Objects s) (early : Early s)
    (refused : s.engine = .portConfigure → ok = false) (now : engineStep ok s = some t) :
    Early t ∧ t.messages = s.messages := by
  rcases early.engine with at_ | at_ | at_ | at_ | at_ <;> simp only [engineStep, at_] at now
  · cases now
    split
    · exact ⟨⟨by simp [EngineAt.next], early.made⟩, rfl⟩
    · exact ⟨panicEarly early, rfl⟩
  · exact makesEarly objects at_ now
  · cases now
    split
    · exact ⟨⟨by simp [EngineAt.next], early.made⟩, rfl⟩
    · exact ⟨panicEarly early, rfl⟩
  · rw [refused at_] at now
    cases now
    exact ⟨panicEarly early, rfl⟩
  · cases now

theorem stepEarly {a : Action} (objects : Objects s) (inside : Scoped s) (early : Early s)
    (refused : ∀ ok, s.engine = .portConfigure → a = .engine ok → ok = false) (now : step s a = some t) :
    Early t ∧ t.messages = s.messages + if a = .message then 1 else 0 := by
  have kept : t.engine = s.engine → t.objects = s.objects → Early t := by
    intro engine same
    exact ⟨by rw [engine]; exact early.engine, by rw [same]; exact early.made⟩
  cases a with
  | engine ok => exact engineEarly objects early (fun at_ => refused ok at_ rfl) now
  | message =>
    cases now
    exact ⟨kept rfl rfl, rfl⟩
  | signal =>
    simp only [step] at now
    split at now <;> cases now
    exact ⟨kept rfl rfl, rfl⟩
  | mux ok =>
    obtain ⟨_, engine, same, messages⟩ := muxScoped inside now
    exact ⟨kept engine same, messages⟩
  | listener ok =>
    obtain ⟨_, engine, same, messages⟩ := listenerScoped inside now
    exact ⟨kept engine same, messages⟩

theorem earlyNames (objects : Objects s) (early : Early s) (name : Memring.Name) (id : Nat)
    (found : s.objects.dpdk.registered name = some id) : name = .globalMempool := by
  rw [objects.inv.owned] at found
  have stage := objects.stage
  have at_ := early.engine
  generalize s.engine = here, s.objects.engine = holds at stage at_ found
  cases stage <;> simp_all [Memring.Engine.handles]

end Steps

section Runs
variable {RxConf TxConf Pool : Type} {b : Bindings} {driver : Driver RxConf TxConf Pool} {port : Port RxConf TxConf}
  {mempool : Pool}

structure Unstarted (es : List (Transition State Action)) (s : State) : Prop where
  early : Early s
  messages : s.messages = arrivals es
  names : ∀ name id, s.objects.dpdk.registered name = some id → name = .globalMempool
  mux : s.mux = .removeFile ∨ s.mux = .scope ∨ s.mux = .panicked

theorem engineNeverBegins (bounded : Bounded driver) {acts : List Action} {es : List (Transition State Action)}
    {u : State} (ok : run (traced step) boot acts = some (es, u))
    (configures : ∀ e ∈ es, Configures b driver port mempool e) : Unstarted es u := by
  have reached : Brought es u ∧ ((∀ e ∈ es, Configures b driver port mempool e) →
      Early u ∧ u.messages = arrivals es) := by
    apply runInvariant (fun es s => Brought es s ∧ ((∀ e ∈ es, Configures b driver port mempool e) →
      Early s ∧ s.messages = arrivals es)) _ ⟨bootBrought, fun _ => ⟨⟨.inl rfl, Nat.zero_le 1⟩, rfl⟩⟩ ok
    rintro past s a e t ⟨brought, so⟩ now
    obtain ⟨stepped, rfl⟩ := tracedStep now
    refine ⟨stepBrought brought stepped, fun configures => ?_⟩
    obtain ⟨before, last⟩ := List.forall_mem_append.mp configures
    obtain ⟨early, messages⟩ := so before
    have refused : ∀ ok, s.engine = .portConfigure → a = .engine ok → ok = false := by
      intro ok at_ call
      obtain ⟨past, same⟩ := last _ (List.mem_singleton_self _) ok at_ call
      exact Bool.eq_false_iff.mpr (fun good => configureRefused bounded past (same.mp good))
    obtain ⟨still, more⟩ := stepEarly brought.objects brought.inside early refused stepped
    exact ⟨still, by rw [more, messages, arrivalsNext]⟩
  obtain ⟨brought, so⟩ := reached
  obtain ⟨early, messages⟩ := so configures
  exact ⟨early, messages, earlyNames brought.objects early, brought.inside.mux.imp id (Or.imp id And.left)⟩

def refusedStart : List Action :=
  [.mux true, .message, .engine true, .engine true, .engine true, .engine false]

theorem engineNeverBeginsAtOneCore :
    ∃ es u, run (traced step) boot refusedStart = some (es, u) ∧ u.engine = .panicked ∧ Unstarted es u := by
  have bounded := cooperativeBounded queueDriverCooperative
  refine ⟨_, _, rfl, rfl, @engineNeverBegins _ _ _ sampleBindings queueDriver samplePort () bounded refusedStart _ _
    rfl ?_⟩
  iterate 5 refine List.forall_mem_cons.mpr ⟨configuresElsewhere (by decide), ?_⟩
  exact List.forall_mem_singleton.mpr (configuresRefused bounded rfl)

end Runs

end Vdp.Startup
