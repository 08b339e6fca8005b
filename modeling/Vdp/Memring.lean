import Vdp.Lib.Run
import Mathlib.Data.List.Nodup
import Mathlib.Logic.Function.Basic

/-! The named rings and the packet pool that the engine shares with the mux. Creating an
object and looking it up give handles of one type, and dropping a handle frees the object
whichever way it was obtained. The engine's start and any number of lookups by the mux
interleave at single calls into the registry. -/
namespace Vdp.Memring
open Lib.Run

inductive Name where
  | e2c
  | c2e
  | globalMempool
  deriving DecidableEq, Repr

structure Dpdk where
  registered : Name → Option Nat
  freed : List Nat
  fresh : Nat

namespace Dpdk

/- `room` is false when the call fails for any other reason than a name in use. -/
def create (d : Dpdk) (name : Name) (room : Bool) : Option (Nat × Dpdk) :=
  if d.registered name = none ∧ room = true then
    some (d.fresh, { d with registered := Function.update d.registered name (some d.fresh), fresh := d.fresh + 1 })
  else none

def free (d : Dpdk) (id : Nat) : Dpdk :=
  { d with
    registered := fun name => if d.registered name = some id then none else d.registered name
    freed := d.freed ++ [id] }

end Dpdk

inductive RingType where
  | p2e
  | e2p
  deriving DecidableEq, Repr

def RingType.name : RingType → Name
  | .p2e => .c2e
  | .e2p => .e2c

def ringNew (d : Dpdk) (rtype : RingType) (room : Bool) : Option (Nat × Dpdk) := d.create rtype.name room

def ringLookup (d : Dpdk) (rtype : RingType) : Option Nat := d.registered rtype.name

def mempoolNew (d : Dpdk) (room : Bool) : Option (Nat × Dpdk) := d.create .globalMempool room

def mempoolLookup (d : Dpdk) : Option Nat := d.registered .globalMempool

structure Channel where
  toEngine : Nat
  toPacketiser : Nat
  deriving DecidableEq, Repr

structure Mux where
  channel : Channel
  mempool : Nat
  deriving DecidableEq, Repr

/- Fields drop in the order of their declaration. -/
def Channel.drop (c : Channel) (d : Dpdk) : Dpdk := (d.free c.toEngine).free c.toPacketiser

def Mux.drop (m : Mux) (d : Dpdk) : Dpdk := (m.channel.drop d).free m.mempool

inductive Engine where
  | starting
  | pooled (mempool : Nat)
  | oneRing (engineToClient mempool : Nat)
  | running (clientToEngine engineToClient mempool : Nat)
  | stopped
  deriving DecidableEq, Repr

/- `Mempool::new`, then the two calls of `Channel::new`. A failed one panics, which drops
what the engine holds. -/
def Engine.step (d : Dpdk) (room : Bool) : Engine → Option (Dpdk × Engine)
  | .starting => match mempoolNew d room with
    | some (mempool, d) => some (d, .pooled mempool)
    | none => some (d, .stopped)
  | .pooled mempool => match ringNew d .e2p room with
    | some (ring, d) => some (d, .oneRing ring mempool)
    | none => some (d.free mempool, .stopped)
  | .oneRing ring mempool => match ringNew d .p2e room with
    | some (second, d) => some (d, .running second ring mempool)
    | none => some ((d.free ring).free mempool, .stopped)
  | .running _ _ _ => none
  | .stopped => none

inductive Attempt where
  | idle
  | looking (forMux : Bool)
  | oneRing (forMux : Bool) (toPacketiser : Nat)
  | channel (c : Channel)
  | needsPool (c : Channel)
  | mux (m : Mux)
  | failed
  | dropped
  deriving DecidableEq, Repr

/- The next lookup of `Channel::lookup`, or of `Mux::new` when `forMux` is set. Returning
early drops the handles found so far. -/
def Attempt.lookup (d : Dpdk) : Attempt → Option (Dpdk × Attempt)
  | .looking forMux => match ringLookup d .e2p with
    | some toPacketiser => some (d, .oneRing forMux toPacketiser)
    | none => some (d, .failed)
  | .oneRing forMux toPacketiser => match ringLookup d .p2e with
    | some toEngine =>
      let c := ⟨toEngine, toPacketiser⟩
      some (d, if forMux then .needsPool c else .channel c)
    | none => some (d.free toPacketiser, .failed)
  | .needsPool c => match mempoolLookup d with
    | some mempool => some (d, .mux ⟨c, mempool⟩)
    | none => some (c.drop d, .failed)
  | _ => none

def Attempt.drop (d : Dpdk) : Attempt → Option (Dpdk × Attempt)
  | .channel c => some (c.drop d, .dropped)
  | .mux m => some (m.drop d, .dropped)
  | _ => none

structure System where
  dpdk : Dpdk
  engine : Engine
  attempts : Nat → Attempt

inductive Action where
  | engine (room : Bool)
  | start (i : Nat) (forMux : Bool)
  | lookup (i : Nat)
  | drop (i : Nat)
  deriving DecidableEq, Repr

def System.attempted (s : System) (i : Nat) (r : Dpdk × Attempt) : System :=
  { s with dpdk := r.1, attempts := Function.update s.attempts i r.2 }

def step (s : System) : Action → Option System
  | .engine room => (s.engine.step s.dpdk room).map (fun r => { s with dpdk := r.1, engine := r.2 })
  | .start i forMux => if s.attempts i = .idle then some (s.attempted i (s.dpdk, .looking forMux)) else none
  | .lookup i => ((s.attempts i).lookup s.dpdk).map (s.attempted i)
  | .drop i => ((s.attempts i).drop s.dpdk).map (s.attempted i)

def boot : System := ⟨⟨fun _ => none, [], 0⟩, .starting, fun _ => .idle⟩

def Engine.handles : Engine → List (Name × Nat)
  | .pooled mempool => [(.globalMempool, mempool)]
  | .oneRing ring mempool => [(.e2c, ring), (.globalMempool, mempool)]
  | .running second ring mempool => [(.c2e, second), (.e2c, ring), (.globalMempool, mempool)]
  | _ => []

def Channel.handles (c : Channel) : List (Name × Nat) := [(.c2e, c.toEngine), (.e2c, c.toPacketiser)]

def Attempt.handles : Attempt → List (Name × Nat)
  | .oneRing _ toPacketiser => [(.e2c, toPacketiser)]
  | .channel c => c.handles
  | .needsPool c => c.handles
  | .mux m => m.channel.handles ++ [(.globalMempool, m.mempool)]
  | _ => []

structure LifeCycle (e : Transition System Action) : Prop where
  registered : ∀ h ∈ e.after.engine.handles, e.after.dpdk.registered h.1 = some h.2
  valid : ∀ h ∈ e.after.engine.handles, h.2 ∉ e.after.dpdk.freed
  once : e.after.dpdk.freed.Nodup
  failure : ∀ i, e.act = .lookup i → e.after.attempts i = .failed → e.after.dpdk = e.before.dpdk

/- No handle that came from a lookup is dropped: neither by a later lookup of the same
attempt that finds nothing, nor as part of a finished channel or mux. -/
def KeepsHandles (e : Transition System Action) : Prop := match e.act with
  | .lookup i => match e.before.attempts i with
    | .oneRing _ _ => e.before.dpdk.registered .c2e ≠ none
    | .needsPool _ => e.before.dpdk.registered .globalMempool ≠ none
    | _ => True
  | .drop _ => False
  | _ => True

def freeAll (d : Dpdk) (ids : List Nat) : Dpdk := ids.foldl Dpdk.free d

theorem freeAllFreed (d : Dpdk) (ids : List Nat) : (freeAll d ids).freed = d.freed ++ ids := by
  induction ids generalizing d with
  | nil => simp [freeAll]
  | cons id rest ih =>
    have tail := ih (d.free id)
    simp only [freeAll, List.foldl_cons] at tail ⊢
    rw [tail]
    simp [Dpdk.free]

theorem freeAllRegistered (d : Dpdk) (ids : List Nat) (name : Name) (id : Nat) :
    (freeAll d ids).registered name = some id ↔ d.registered name = some id ∧ id ∉ ids := by
  induction ids generalizing d with
  | nil => simp [freeAll]
  | cons head rest ih =>
    have tail := ih (d.free head)
    simp only [freeAll, List.foldl_cons] at tail ⊢
    rw [tail, List.mem_cons, not_or, ← and_assoc]
    apply and_congr_left
    intro _
    simp only [Dpdk.free]
    split
    · rename_i same
      simp only [same, Option.some.injEq, reduceCtorEq, false_iff]
      exact fun both => both.2 both.1.symm
    · rename_i other
      exact ⟨fun now => ⟨now, fun same => other (same ▸ now)⟩, And.left⟩

theorem freeAllFresh (d : Dpdk) (ids : List Nat) : (freeAll d ids).fresh = d.fresh := by
  induction ids generalizing d with
  | nil => rfl
  | cons id rest ih => exact ih (d.free id)

inductive Effect (s : System) (a : Action) (t : System) : Prop where
  | created (name : Name) (unused : s.dpdk.registered name = none)
      (dpdk : t.dpdk = { s.dpdk with
        registered := Function.update s.dpdk.registered name (some s.dpdk.fresh)
        fresh := s.dpdk.fresh + 1 })
      (handles : t.engine.handles = (name, s.dpdk.fresh) :: s.engine.handles)
      (attempts : t.attempts = s.attempts) (act : ∀ i, a ≠ .lookup i) (keeps : KeepsHandles ⟨s, a, t⟩)
  | stopped (dpdk : t.dpdk = freeAll s.dpdk (s.engine.handles.map Prod.snd)) (handles : t.engine.handles = [])
      (attempts : t.attempts = s.attempts) (act : ∀ i, a ≠ .lookup i) (keeps : KeepsHandles ⟨s, a, t⟩)
  | looked (dpdk : t.dpdk = s.dpdk) (engine : t.engine = s.engine)
      (held : ∀ i, ∀ h ∈ (t.attempts i).handles, h ∈ (s.attempts i).handles ∨ s.dpdk.registered h.1 = some h.2)
      (keeps : KeepsHandles ⟨s, a, t⟩)
  | released (i : Nat) (h : Name × Nat) (ids : List Nat) (held : h ∈ (s.attempts i).handles) (gone : h.2 ∈ ids)
      (dpdk : t.dpdk = freeAll s.dpdk ids) (engine : t.engine = s.engine)
      (breaks : ¬ KeepsHandles ⟨s, a, t⟩)

theorem createSome {d : Dpdk} {name : Name} {room : Bool} {r : Nat × Dpdk} (ok : d.create name room = some r) :
    d.registered name = none ∧ r = (d.fresh, { d with
      registered := Function.update d.registered name (some d.fresh), fresh := d.fresh + 1 }) := by
  unfold Dpdk.create at ok
  split at ok <;> try contradiction
  rename_i free
  exact ⟨free.1, (Option.some.inj ok).symm⟩

theorem madeEffect {s : System} {room : Bool} {name : Name} {r : Nat × Dpdk} {engine : Engine}
    (made : s.dpdk.create name room = some r) (handles : engine.handles = (name, r.1) :: s.engine.handles) :
    Effect s (.engine room) { s with dpdk := r.2, engine := engine } := by
  obtain ⟨unused, same⟩ := createSome made
  cases same
  exact .created name unused rfl handles rfl (by simp) trivial

theorem stoppedEffect {s : System} {room : Bool} {dpdk : Dpdk}
    (freed : dpdk = freeAll s.dpdk (s.engine.handles.map Prod.snd)) :
    Effect s (.engine room) { s with dpdk := dpdk, engine := .stopped } :=
  .stopped freed rfl rfl (by simp) trivial

theorem engineEffect {s t : System} {room : Bool} (ok : step s (.engine room) = some t) :
    Effect s (.engine room) t := by
  obtain ⟨⟨d, engine⟩, now, same⟩ := Option.map_eq_some_iff.mp ok
  subst same
  cases phase : s.engine with
  | starting =>
    simp only [phase, Engine.step, mempoolNew] at now
    split at now <;> cases Option.some.inj now
    · rename_i made
      exact madeEffect made (by simp [phase, Engine.handles])
    · exact stoppedEffect (by simp [phase, Engine.handles, freeAll])
  | pooled mempool =>
    simp only [phase, Engine.step, ringNew, RingType.name] at now
    split at now <;> cases Option.some.inj now
    · rename_i made
      exact madeEffect made (by simp [phase, Engine.handles])
    · exact stoppedEffect (by simp [phase, Engine.handles, freeAll])
  | oneRing ring mempool =>
    simp only [phase, Engine.step, ringNew, RingType.name] at now
    split at now <;> cases Option.some.inj now
    · rename_i made
      exact madeEffect made (by simp [phase, Engine.handles])
    · exact stoppedEffect (by simp [phase, Engine.handles, freeAll])
  | running second ring mempool => simp [phase, Engine.step] at now
  | stopped => simp [phase, Engine.step] at now

theorem attemptedLooked {s : System} {a : Action} {i : Nat} {stage : Attempt}
    (held : ∀ h ∈ stage.handles, h ∈ (s.attempts i).handles ∨ s.dpdk.registered h.1 = some h.2)
    (keeps : KeepsHandles ⟨s, a, s.attempted i (s.dpdk, stage)⟩) :
    Effect s a (s.attempted i (s.dpdk, stage)) := by
  refine Effect.looked rfl rfl ?_ keeps
  intro j h member
  simp only [System.attempted] at member
  by_cases same : j = i
  · subst same
    rw [Function.update_self] at member
    exact held h member
  · rw [Function.update_of_ne same] at member
    exact .inl member

theorem startEffect {s t : System} {i : Nat} {forMux : Bool} (ok : step s (.start i forMux) = some t) :
    Effect s (.start i forMux) t := by
  simp only [step] at ok
  split at ok <;> try contradiction
  cases Option.some.inj ok
  exact attemptedLooked (by simp [Attempt.handles]) trivial

theorem lookupEffect {s t : System} {i : Nat} (ok : step s (.lookup i) = some t) : Effect s (.lookup i) t := by
  obtain ⟨r, now, same⟩ := Option.map_eq_some_iff.mp ok
  subst same
  cases stage : s.attempts i with
  | looking forMux =>
    simp only [stage, Attempt.lookup, ringLookup, RingType.name] at now
    split at now <;> cases Option.some.inj now
    · rename_i found
      exact attemptedLooked (by simp [Attempt.handles, found]) (by simp [KeepsHandles, stage])
    · exact attemptedLooked (by simp [Attempt.handles]) (by simp [KeepsHandles, stage])
  | oneRing forMux toPacketiser =>
    simp only [stage, Attempt.lookup, ringLookup, RingType.name] at now
    split at now <;> cases Option.some.inj now
    · rename_i found
      apply attemptedLooked
      · cases forMux <;> simp [stage, Attempt.handles, Channel.handles, found]
      · simp [KeepsHandles, stage, found]
    · rename_i missing
      exact .released i (.e2c, toPacketiser) [toPacketiser] (by simp [stage, Attempt.handles]) (by simp) rfl rfl
        (by simp [KeepsHandles, stage, missing])
  | needsPool c =>
    simp only [stage, Attempt.lookup, mempoolLookup] at now
    split at now <;> cases Option.some.inj now
    · rename_i found
      apply attemptedLooked
      · simp [stage, Attempt.handles, Channel.handles, found]
      · simp [KeepsHandles, stage, found]
    · rename_i missing
      exact .released i (.e2c, c.toPacketiser) [c.toEngine, c.toPacketiser]
        (by simp [stage, Attempt.handles, Channel.handles]) (by simp) rfl rfl
        (by simp [KeepsHandles, stage, missing])
  | idle => simp [stage, Attempt.lookup] at now
  | channel c => simp [stage, Attempt.lookup] at now
  | mux m => simp [stage, Attempt.lookup] at now
  | failed => simp [stage, Attempt.lookup] at now
  | dropped => simp [stage, Attempt.lookup] at now

theorem dropEffect {s t : System} {i : Nat} (ok : step s (.drop i) = some t) : Effect s (.drop i) t := by
  obtain ⟨r, now, same⟩ := Option.map_eq_some_iff.mp ok
  subst same
  unfold Attempt.drop at now
  split at now <;> try contradiction
  · rename_i c stage
    cases Option.some.inj now
    exact .released i (.c2e, c.toEngine) [c.toEngine, c.toPacketiser]
      (by simp [stage, Attempt.handles, Channel.handles]) (by simp) rfl rfl id
  · rename_i m stage
    cases Option.some.inj now
    exact .released i (.c2e, m.channel.toEngine) [m.channel.toEngine, m.channel.toPacketiser, m.mempool]
      (by simp [stage, Attempt.handles, Channel.handles]) (by simp) rfl rfl id

theorem stepEffect {s t : System} {a : Action} (ok : step s a = some t) : Effect s a t := by
  cases a with
  | engine room => exact engineEffect ok
  | start i forMux => exact startEffect ok
  | lookup i => exact lookupEffect ok
  | drop i => exact dropEffect ok

/- A handle of the mux refers to an object the engine made: one it still holds, or one it
gave up when it stopped. -/
structure Inv (s : System) : Prop where
  owned : ∀ name id, s.dpdk.registered name = some id ↔ (name, id) ∈ s.engine.handles
  valid : ∀ h ∈ s.engine.handles, h.2 ∉ s.dpdk.freed
  once : s.dpdk.freed.Nodup
  distinct : (s.engine.handles.map Prod.snd).Nodup
  oldFreed : ∀ id ∈ s.dpdk.freed, id < s.dpdk.fresh
  oldHeld : ∀ h ∈ s.engine.handles, h.2 < s.dpdk.fresh
  found : ∀ i, ∀ h ∈ (s.attempts i).handles, h ∈ s.engine.handles ∨ h.2 ∈ s.dpdk.freed

theorem invBoot : Inv boot := by
  constructor <;> simp [boot, Engine.handles, Attempt.handles]

theorem createdInv {s t : System} {name : Name} (inv : Inv s) (unused : s.dpdk.registered name = none)
    (dpdk : t.dpdk = { s.dpdk with
      registered := Function.update s.dpdk.registered name (some s.dpdk.fresh)
      fresh := s.dpdk.fresh + 1 })
    (handles : t.engine.handles = (name, s.dpdk.fresh) :: s.engine.handles)
    (attempts : t.attempts = s.attempts) : Inv t := by
  constructor
  case owned =>
    intro other id
    rw [dpdk, handles, List.mem_cons, ← inv.owned, Prod.mk.injEq]
    by_cases same : other = name
    · subst same
      simp [unused, eq_comm]
    · simp [same]
  case valid =>
    rw [dpdk, handles]
    intro h member
    cases List.mem_cons.mp member with
    | inl new =>
      subst new
      exact fun old => Nat.lt_irrefl _ (inv.oldFreed _ old)
    | inr old => exact inv.valid h old
  case once =>
    rw [dpdk]
    exact inv.once
  case distinct =>
    rw [handles, List.map_cons, List.nodup_cons]
    refine ⟨fun old => ?_, inv.distinct⟩
    obtain ⟨h, member, same⟩ := List.mem_map.mp old
    have low := inv.oldHeld h member
    exact Nat.lt_irrefl _ (same ▸ low)
  case oldFreed =>
    rw [dpdk]
    exact fun id member => Nat.lt_succ_of_lt (inv.oldFreed id member)
  case oldHeld =>
    rw [dpdk, handles]
    intro h member
    cases List.mem_cons.mp member with
    | inl new =>
      subst new
      exact Nat.lt_succ_self _
    | inr old => exact Nat.lt_succ_of_lt (inv.oldHeld h old)
  case found =>
    rw [attempts, handles, dpdk]
    intro i h member
    exact (inv.found i h member).imp (List.mem_cons_of_mem _) id

theorem stoppedInv {s t : System} (inv : Inv s)
    (dpdk : t.dpdk = freeAll s.dpdk (s.engine.handles.map Prod.snd)) (handles : t.engine.handles = [])
    (attempts : t.attempts = s.attempts) : Inv t := by
  constructor
  case owned =>
    intro name id
    rw [dpdk, handles, freeAllRegistered, inv.owned]
    simp only [List.not_mem_nil, iff_false, not_and, not_not]
    exact fun member => List.mem_map.mpr ⟨_, member, rfl⟩
  case valid => simp [handles]
  case once =>
    rw [dpdk, freeAllFreed]
    apply inv.once.append inv.distinct
    intro id gone member
    obtain ⟨h, held, same⟩ := List.mem_map.mp member
    exact inv.valid h held (same ▸ gone)
  case distinct => simp [handles]
  case oldFreed =>
    rw [dpdk, freeAllFreed, freeAllFresh]
    intro id member
    cases List.mem_append.mp member with
    | inl old => exact inv.oldFreed id old
    | inr now =>
      obtain ⟨h, held, same⟩ := List.mem_map.mp now
      exact same ▸ inv.oldHeld h held
  case oldHeld => simp [handles]
  case found =>
    rw [attempts, dpdk, freeAllFreed]
    intro i h member
    right
    cases inv.found i h member with
    | inl held => exact List.mem_append_right _ (List.mem_map.mpr ⟨h, held, rfl⟩)
    | inr gone => exact List.mem_append_left _ gone

theorem lookedInv {s t : System} (inv : Inv s) (dpdk : t.dpdk = s.dpdk) (engine : t.engine = s.engine)
    (held : ∀ i, ∀ h ∈ (t.attempts i).handles, h ∈ (s.attempts i).handles ∨ s.dpdk.registered h.1 = some h.2) :
    Inv t := by
  obtain ⟨d, e, attempts⟩ := t
  subst dpdk engine
  refine ⟨inv.owned, inv.valid, inv.once, inv.distinct, inv.oldFreed, inv.oldHeld, fun i h member => ?_⟩
  cases held i h member with
  | inl before => exact inv.found i h before
  | inr now => exact .inl ((inv.owned h.1 h.2).mp now)

theorem effectInv {s t : System} {a : Action} (inv : Inv s) (effect : Effect s a t)
    (keeps : KeepsHandles ⟨s, a, t⟩) : Inv t := by
  cases effect with
  | created name unused dpdk handles attempts _ _ => exact createdInv inv unused dpdk handles attempts
  | stopped dpdk handles attempts _ _ => exact stoppedInv inv dpdk handles attempts
  | looked dpdk engine held _ => exact lookedInv inv dpdk engine held
  | released i h ids held gone dpdk engine breaks => exact absurd keeps breaks

theorem invLifeCycle {s t : System} {a : Action} (inv : Inv t)
    (failure : ∀ i, a = .lookup i → t.attempts i = .failed → t.dpdk = s.dpdk) : LifeCycle ⟨s, a, t⟩ where
  registered h member := (inv.owned h.1 h.2).mpr member
  valid := inv.valid
  once := inv.once
  failure := failure

theorem releasedBreaks {s t : System} {a : Action} {i : Nat} {h : Name × Nat} {ids : List Nat} (inv : Inv s)
    (held : h ∈ (s.attempts i).handles) (gone : h.2 ∈ ids) (dpdk : t.dpdk = freeAll s.dpdk ids)
    (engine : t.engine = s.engine) : ¬ LifeCycle ⟨s, a, t⟩ := by
  intro cycle
  have freed : t.dpdk.freed = s.dpdk.freed ++ ids := by rw [dpdk, freeAllFreed]
  cases inv.found i h held with
  | inl owned =>
    have valid := cycle.valid h (by simpa [engine] using owned)
    simp only [freed, List.mem_append, not_or] at valid
    exact valid.2 gone
  | inr before =>
    have once := cycle.once
    simp only [freed] at once
    exact List.disjoint_of_nodup_append once before gone

theorem effectAgrees {s t : System} {a : Action} (inv : Inv s) (effect : Effect s a t) :
    LifeCycle ⟨s, a, t⟩ ↔ KeepsHandles ⟨s, a, t⟩ := by
  cases effect with
  | created name unused dpdk handles attempts act keeps =>
    exact iff_of_true (invLifeCycle (createdInv inv unused dpdk handles attempts)
      (fun i same => absurd same (act i))) keeps
  | stopped dpdk handles attempts act keeps =>
    exact iff_of_true (invLifeCycle (stoppedInv inv dpdk handles attempts)
      (fun i same => absurd same (act i))) keeps
  | looked dpdk engine held keeps =>
    exact iff_of_true (invLifeCycle (lookedInv inv dpdk engine held) (fun _ _ _ => dpdk)) keeps
  | released i h ids held gone dpdk engine breaks =>
    exact iff_of_false (releasedBreaks inv held gone dpdk engine) breaks

theorem sharedObjectsLiveIffHandlesKept (acts : List Action) (es : List (Transition System Action))
    (u : System) (ran : run (traced step) boot acts = some (es, u)) :
    (∀ e ∈ es, LifeCycle e) ↔ ∀ e ∈ es, KeepsHandles e :=
  runAgrees Inv (fun inv ok => ⟨effectAgrees inv (stepEffect ok), effectInv inv (stepEffect ok)⟩) invBoot ran

def cleanStart : List Action :=
  [.start 0 true, .engine true, .lookup 0, .engine true, .engine true, .start 1 true, .lookup 1, .lookup 1, .lookup 1]

theorem sharedObjectsLiveAtCleanStart :
    ∃ es u, run (traced step) boot cleanStart = some (es, u) ∧ u.attempts 1 = .mux ⟨⟨2, 1⟩, 0⟩ ∧
      ∀ e ∈ es, LifeCycle e :=
  ⟨_, _, rfl, rfl, (sharedObjectsLiveIffHandlesKept cleanStart _ _ rfl).mpr
    (by simp [KeepsHandles, System.attempted, Function.update, RingType.name])⟩

def earlyLookup : List Action := [.engine true, .engine true, .start 0 false, .lookup 0, .lookup 0]

theorem failedLookupFreesRing :
    ∃ es u, run (traced step) boot earlyLookup = some (es, u) ∧ u.attempts 0 = .failed ∧
      u.engine = .oneRing 1 0 ∧ u.dpdk.registered .e2c = none ∧ u.dpdk.freed = [1] ∧
      ¬ ∀ e ∈ es, LifeCycle e := by
  refine ⟨_, _, rfl, rfl, rfl, rfl, rfl, fun all => ?_⟩
  have last := (all _ (List.getLast_mem (by simp))).valid (.e2c, 1)
  exact last (by decide) (by decide)

end Vdp.Memring
