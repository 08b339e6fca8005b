import Vdp.Dispatch

/-! Who the listener knows. The name of an interface is the size of the service map at its
registration, and each registration goes under the one service name, so it replaces the one
before. A handler lives from the registration until it returns or panics. -/
namespace Vdp.Dispatch
open Lib.Run Memenpsf

variable {Ptr : Type}

structure Registered (s : System Ptr) : Prop where
  names : ∀ (i j : Nat) (c d : Client Ptr), s.clients[i]? = some c → s.clients[j]? = some d → c.alive = true →
    d.alive = true → c.name = d.name → i = j
  sender : ∀ (i : Nat) (c : Client Ptr), s.clients[i]? = some c → c.alive = true → i ∈ s.serviceMap.map Prod.snd

def Alone (e : Transition (System Ptr) (Action Ptr)) : Prop :=
  e.act = .accept → ∀ c ∈ e.before.clients, c.alive = false

structure Sole (s : System Ptr) : Prop where
  keys : ∀ entry ∈ s.serviceMap, entry.1 = srvc
  sole : ∀ (i : Nat) (c : Client Ptr), s.clients[i]? = some c → c.alive = true → s.serviceMap.map Prod.snd = [i]

theorem soleRegistered {s : System Ptr} (inv : Sole s) : Registered s where
  names i j c d found found' alive alive' _ := by
    have same := (inv.sole i c found alive).symm.trans (inv.sole j d found' alive')
    exact (List.cons.inj same).1
  sender i c found alive := by
    rw [inv.sole i c found alive]
    exact List.mem_cons_self

theorem solePut {s : System Ptr} {j : Nat} {c new : Client Ptr} (inv : Sole s) (found : s.clients[j]? = some c)
    (alive : new.alive = true → c.alive = true) : Sole (s.put j new) where
  keys := inv.keys
  sole i d entry living := by
    rw [putGet found] at entry
    split at entry
    · rename_i same
      subst same
      cases Option.some.inj entry
      exact inv.sole i c found (alive living)
    · exact inv.sole i d entry living

theorem acceptSenders {s : System Ptr} (keys : ∀ entry ∈ s.serviceMap, entry.1 = srvc) :
    (accept s).serviceMap = [(srvc, s.clients.length)] := by
  have nothing : s.serviceMap.filter (fun e => e.1 ≠ srvc) = [] := by
    apply List.filter_eq_nil_iff.mpr
    intro entry member
    simp [keys entry member]
  simp only [accept, insert, nothing]

theorem soleAccept {s : System Ptr} (inv : Sole s) (alone : ∀ c ∈ s.clients, c.alive = false) : Sole (accept s) where
  keys entry member := by
    rw [acceptSenders inv.keys] at member
    rw [List.mem_singleton.mp member]
  sole i c found alive := by
    rw [acceptSenders inv.keys]
    rcases acceptGet found with ⟨_, old⟩ | ⟨last, _⟩
    · have dead := alone c (List.mem_of_getElem? old)
      rw [alive] at dead
      contradiction
    · rw [last]
      rfl

theorem acceptRegistersAlone {s : System Ptr} (inv : Sole s) (registered : Registered (accept s)) :
    ∀ c ∈ s.clients, c.alive = false := by
  intro c member
  by_contra dead
  have alive : c.alive = true := by simpa using dead
  obtain ⟨i, below, same⟩ := List.getElem_of_mem member
  have found : (accept s).clients[i]? = some c := by
    simp only [accept]
    rw [List.getElem?_append_left below, List.getElem?_eq_getElem below, same]
  have held := registered.sender i c found alive
  rw [acceptSenders inv.keys] at held
  have last := List.mem_singleton.mp held
  omega

theorem soleStep {contents : Ptr → Packet} {s t : System Ptr} {a : Action Ptr} (inv : Sole s)
    (did : Did contents s a t) (other : a ≠ .accept) : Sole t := by
  cases did with
  | accepted => contradiction
  | connected region found phase => exact solePut inv found (fun _ => by simp [Client.alive, phase])
  | unmapped found phase => exact solePut inv found (fun _ => by simp [Client.alive, phase])
  | received found phase queue => exact solePut inv found (fun _ => by simp [Client.alive, phase])
  | closed found phase queue gone => exact solePut inv found (fun _ => by simp [Client.alive, phase])
  | handed found phase pushed => exact solePut inv found (fun _ => by simp [Client.alive, phase])
  | ended found phase => exact solePut inv found (fun _ => by simp [Client.alive, phase])
  | unknown missing => exact ⟨inv.keys, inv.sole⟩
  | refused known found dead => exact ⟨inv.keys, inv.sole⟩
  | queued known found living => exact solePut inv found (fun _ => living)

theorem registeredStep {contents : Ptr → Packet} {s t : System Ptr} {a : Action Ptr} (inv : Sole s)
    (did : Did contents s a t) :
    (Registered t ↔ Alone ⟨s, a, t⟩) ∧ (Alone ⟨s, a, t⟩ → Sole t) := by
  by_cases accepting : a = .accept
  · subst accepting
    cases did
    constructor
    · constructor
      · exact fun registered _ => acceptRegistersAlone inv registered
      · exact fun alone => soleRegistered (soleAccept inv (alone rfl))
    · exact fun alone => soleAccept inv (alone rfl)
  · have next := soleStep inv did accepting
    exact ⟨iff_of_true (soleRegistered next) (fun same => absurd same accepting), fun _ => next⟩

theorem registeredIffAlone (contents : Ptr → Packet) (acts : List (Action Ptr))
    (es : List (Transition (System Ptr) (Action Ptr))) (u : System Ptr)
    (ran : run (traced (step contents)) boot acts = some (es, u)) :
    (∀ e ∈ es, Registered e.after) ↔ ∀ e ∈ es, Alone e :=
  runAgrees Sole (fun inv ok => registeredStep inv (stepDid ok).2) ⟨by simp [boot], by simp [boot]⟩ ran

theorem registeredOneByOne :
    ∃ es u, run (traced (step zeros)) boot [.accept, .connect 0 none, .accept] = some (es, u) ∧
      ∀ e ∈ es, Registered e.after :=
  ⟨_, _, rfl, (registeredIffAlone zeros [.accept, .connect 0 none, .accept] _ _ rfl).mpr (by
    simp [Alone, boot, accept, System.put, Client.alive])⟩

theorem secondClientReplacesFirst :
    ∃ es u c d, run (traced (step zeros)) boot [.accept, .accept] = some (es, u) ∧
      u.clients[0]? = some c ∧ u.clients[1]? = some d ∧ c.alive = true ∧ d.alive = true ∧ c.name = d.name ∧
      u.serviceMap = [(srvc, 1)] ∧ ¬ ∀ e ∈ es, Registered e.after := by
  refine ⟨_, _, _, _, rfl, rfl, rfl, rfl, rfl, rfl, rfl, fun all => ?_⟩
  have last := all _ (List.getLast_mem (by simp))
  exact absurd (last.names 0 1 _ _ rfl rfl rfl rfl rfl) (by decide)

end Vdp.Dispatch
