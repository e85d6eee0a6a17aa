import Mathlib.Data.BitVec
import Mathlib.Data.List.AList
import Trafodion.Runs

/-!
# Recovery threads for nodes that are down

A transaction manager runs a recovery thread of its own. `nodeDown` starts another one for the
node that went down, and `nodeUp` stops the thread that the map has for the node. What
`nodeDown` puts into the map is the thread of the transaction manager itself.
-/
namespace Trafodion.RescueThreads

abbrev NodeId := BitVec 32

structure RecoveryThread where
  tmID : BitVec 16
  continueThread : Bool

/-- `HBaseTxClient`. Threads are known by their position in `threads`. -/
structure Client where
  dtmID : BitVec 16
  threads : List RecoveryThread
  recovThread : ℕ
  mapRecoveryThreads : AList fun _ : NodeId => ℕ

inductive Call
  | nodeDown (nodeID : NodeId) (zkThrows : Bool)
  | nodeUp (nodeID : NodeId)

namespace Client

/-- `init` with recovery threads. -/
def init (dtmid : BitVec 16) : Client := ⟨dtmid, [⟨dtmid, true⟩], 0, ∅⟩

variable (nodeID : NodeId)

/-- `nodeDown`. The constructor of `HBaseTmZK` may throw, which is logged. -/
def nodeDown (zkThrows : Bool) (c : Client) : Client :=
  if c.dtmID.signExtend 32 = nodeID then c
  else if nodeID ∈ c.mapRecoveryThreads then c
  else if zkThrows then c
  else
    { c with
      threads := c.threads ++ [⟨nodeID.truncate 16, true⟩]
      mapRecoveryThreads := c.mapRecoveryThreads.insert nodeID c.recovThread }

def stopThread (rt : ℕ) (c : Client) : Client :=
  { c with threads := c.threads.modify rt fun thread => { thread with continueThread := false } }

variable (c : Client)

def nodeUp : Client :=
  match c.mapRecoveryThreads.lookup nodeID with
  | none => c
  | some rt =>
    let c := c.stopThread rt
    { c with mapRecoveryThreads := c.mapRecoveryThreads.erase nodeID }

def step : Call → Client
  | .nodeDown nodeID zkThrows => c.nodeDown nodeID zkThrows
  | .nodeUp nodeID => c.nodeUp nodeID

def running : ℕ :=
  c.threads.countP fun thread => thread.continueThread && thread.tmID == nodeID.truncate 16

end Client

def IsNode (nodeID : NodeId) : Prop := (nodeID.truncate 16).signExtend 32 = nodeID

instance (nodeID : NodeId) : Decidable (IsNode nodeID) :=
  inferInstanceAs (Decidable (_ = _))

structure Cluster where
  client : Client
  down : Finset NodeId

namespace Cluster

def init (dtmid : BitVec 16) : Cluster := ⟨Client.init dtmid, ∅⟩

def step (s : Cluster) (call : Call) : Cluster where
  client := s.client.step call
  down :=
    match call with
    | .nodeDown nodeID _ => insert nodeID s.down
    | .nodeUp nodeID => s.down.erase nodeID

def ownThread (s : Cluster) : Option RecoveryThread := s.client.threads[s.client.recovThread]?

/-- The thread of the transaction manager runs, and so does one thread for each other node
that is down. -/
structure Covered (s : Cluster) : Prop where
  own : ∃ thread ∈ s.ownThread, thread.continueThread = true
  rescue : ∀ n, IsNode n → n ≠ s.client.dtmID.signExtend 32 →
    s.client.running n = if n ∈ s.down then 1 else 0

/-- The calls that do no harm: a node comes up only if it is not down, and the thread of a node
that goes down can be created. -/
def Orderly (s : Cluster) : Call → Prop
  | .nodeDown nodeID zkThrows =>
    IsNode nodeID ∧ nodeID ≠ s.client.dtmID.signExtend 32 ∧ zkThrows = false
  | .nodeUp nodeID => nodeID ∉ s.down

instance (s : Cluster) : ∀ call, Decidable (s.Orderly call)
  | .nodeDown _ _ => inferInstanceAs (Decidable (_ ∧ _ ∧ _))
  | .nodeUp _ => inferInstanceAs (Decidable (¬ _))

structure Tracked (s : Cluster) : Prop extends Covered s where
  entries : ∀ n, n ∈ s.client.mapRecoveryThreads ↔ n ∈ s.down

lemma Tracked.init (dtmid : BitVec 16) : Tracked (init dtmid) := by
  constructor
  · constructor
    · exact ⟨⟨dtmid, true⟩, rfl, rfl⟩
    · intro n hn hown
      have hne : dtmid ≠ n.truncate 16 := by
        intro h
        exact hown (hn.symm.trans (congrArg _ h.symm))
      simp [Cluster.init, Client.init, Client.running, hne]
  · intro n
    simp [Cluster.init, Client.init]

end Cluster

lemma IsNode.eq_of_truncate {m n : NodeId} (hm : IsNode m) (hn : IsNode n)
    (h : m.truncate 16 = n.truncate 16) : m = n := by
  rw [← hm, ← hn, h]

variable {c : Client} {n : NodeId}

lemma Client.nodeDown_of_new (hown : n ≠ c.dtmID.signExtend 32)
    (hmap : n ∉ c.mapRecoveryThreads) :
    c.nodeDown n false =
      { c with
        threads := c.threads ++ [⟨n.truncate 16, true⟩]
        mapRecoveryThreads := c.mapRecoveryThreads.insert n c.recovThread } := by
  simp [nodeDown, hown.symm, hmap]

lemma Client.nodeDown_of_mem (hmap : n ∈ c.mapRecoveryThreads)
    (zkThrows : Bool) : c.nodeDown n zkThrows = c := by
  simp [nodeDown, hmap]

lemma Client.nodeUp_of_not_mem (hmap : n ∉ c.mapRecoveryThreads) : c.nodeUp n = c := by
  rw [nodeUp, AList.lookup_eq_none.2 hmap]

namespace Cluster

variable {s : Cluster}

lemma Tracked.nodeDown (h : Tracked s) {n : NodeId} (hn : IsNode n)
    (hown : n ≠ s.client.dtmID.signExtend 32) : Tracked (s.step (.nodeDown n false)) := by
  by_cases hmap : n ∈ s.client.mapRecoveryThreads
  · have hstep : s.step (.nodeDown n false) = s := by
      have hdown := Finset.insert_eq_of_mem ((h.entries n).1 hmap)
      simp [step, Client.step, Client.nodeDown_of_mem hmap, hdown]
    rw [hstep]
    exact h
  · have hdown : n ∉ s.down := fun hdown => hmap ((h.entries n).2 hdown)
    have hclient := Client.nodeDown_of_new hown hmap
    constructor
    · constructor
      · obtain ⟨thread, hthr, hruns⟩ := h.own
        obtain ⟨hlt, -⟩ := List.getElem?_eq_some_iff.1 hthr
        refine ⟨thread, ?_, hruns⟩
        simp only [ownThread, step, Client.step, hclient]
        rw [List.getElem?_append_left hlt]
        exact hthr
      · intro m hm hne
        have hrun := h.rescue m hm (by simpa [step, Client.step, hclient] using hne)
        simp only [step, Client.step, hclient, Client.running, List.countP_append,
          List.countP_singleton] at hrun ⊢
        by_cases hmn : m = n
        · subst hmn
          simp [hrun, hdown]
        · have htm : n.truncate 16 ≠ m.truncate 16 := fun heq =>
            hmn (hm.eq_of_truncate hn heq.symm)
          simp [hrun, hmn, htm]
    · intro m
      simp [step, Client.step, hclient, h.entries]

lemma Tracked.nodeUp (h : Tracked s) {n : NodeId} (hdown : n ∉ s.down) :
    Tracked (s.step (.nodeUp n)) := by
  have hmap : n ∉ s.client.mapRecoveryThreads := fun hmap => hdown ((h.entries n).1 hmap)
  have hstep : s.step (.nodeUp n) = s := by
    simp [step, Client.step, Client.nodeUp_of_not_mem hmap, Finset.erase_eq_of_notMem hdown]
  rw [hstep]
  exact h

/-- In every run of orderly calls the thread of the transaction manager keeps running, and each
node that is down has one thread. -/
theorem covered_of_orderly {dtmid : BitVec 16} {calls p : List Call}
    (h : Runs.Guarded step Orderly (init dtmid) calls) (hp : p <+: calls) :
    Covered (Runs.run step (init dtmid) p) := by
  suffices htracked : Tracked (Runs.run step (init dtmid) p) from htracked.toCovered
  refine h.invariant_prefix ?_ (Tracked.init dtmid) hp
  intro s call hs hcall
  cases call with
  | nodeDown n zkThrows =>
    obtain ⟨hn, hown, rfl⟩ := hcall
    exact hs.nodeDown hn hown
  | nodeUp n => exact hs.nodeUp hcall

theorem two_nodes_covered :
    let calls := [.nodeDown 2 false, .nodeDown 3 false, .nodeUp 1, .nodeDown 2 false]
    Runs.Guarded step Orderly (init 0) calls ∧ Covered (Runs.run step (init 0) calls) := by
  intro calls
  have horderly : Runs.Guarded step Orderly (init 0) calls := by decide
  exact ⟨horderly, covered_of_orderly horderly (List.prefix_refl calls)⟩

/-- When node 2 comes up again, the transaction manager stops its own thread, and the one for
node 2 runs on. -/
theorem own_thread_stopped : ¬ Covered (Runs.run step (init 0) [.nodeDown 2 false, .nodeUp 2]) ∧
      (Runs.run step (init 0) [.nodeDown 2 false, .nodeUp 2]).client.running 2 = 1 := by
  constructor
  · intro h
    obtain ⟨thread, hthread, hruns⟩ := h.own
    obtain rfl : (⟨0, false⟩ : RecoveryThread) = thread := Option.some.inj hthread
    cases hruns
  · decide

end Cluster

end Trafodion.RescueThreads
