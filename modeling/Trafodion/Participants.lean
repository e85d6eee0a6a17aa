import Trafodion.TwoPhaseCommit

/-!
# Registered participants

`callRegisterRegion` answers `RET_OK` for every transaction, and the client then has to send a
commit request to the region. `owed` remembers the regions it has to ask: those registered for a
transaction that was not completed or found read-only since. The set of participants hangs off
the entry of `mapTransactionStates`, so a registration is lost when the transaction has no entry
or gets a new one.
-/
namespace Trafodion.TwoPhaseCommit
open Region

variable {ρ : Type*} [DecidableEq ρ]

structure Registrar (ρ : Type*) where
  system : System ρ
  owed : List (TransId × ρ)

namespace Registrar

variable (s : Registrar ρ)

def settled : Event ρ → Option TransId
  | .completeRequest t throws =>
    if throws = false ∧ t ∈ s.system.mapTransactionStates then some t else none
  | .prepareCommitReturns t =>
    if (s.system.prepareCommitReturns t).2 = .readOnly then some t else none
  | _ => none

def register : Event ρ → List (TransId × ρ)
  | .callRegisterRegion t p => s.owed ++ [(t, p)]
  | event => s.owed.filter fun x => s.settled event ≠ some x.1

def step (s : Registrar ρ) (event : Event ρ) : Registrar ρ :=
  ⟨s.system.step event, s.register event⟩

/-- The next `prepareCommit` sends a commit request to the region. -/
def Asks (s : System ρ) (t : TransId) (p : ρ) : Prop :=
  ⟨p, t, .commitRequest⟩ ∈ (s.prepareCommit t).sent.drop s.sent.length

instance (s : System ρ) (t : TransId) (p : ρ) : Decidable (Asks s t p) :=
  inferInstanceAs (Decidable (_ ∈ _))

def Honours : Prop := ∀ t p, (t, p) ∈ s.owed → Asks s.system t p

/-- When no registration gets lost: regions are registered for transactions that the client
knows, no transaction begins a second time after a registration, and no call drops the state of
a transaction that is not completed. -/
def Orderly : Event ρ → Prop
  | .callRegisterRegion t _ => t ∈ s.system.mapTransactionStates
  | .beginTransaction t => ∀ ts ∈ s.system.mapTransactionStates.lookup t,
      ts.participatingRegions = []
  | .abortTransaction _ io => io.sendThrows = false
  | .restart => False
  | _ => True

instance (s : Registrar ρ) : ∀ event, Decidable (s.Orderly event)
  | .callRegisterRegion t _ => inferInstanceAs (Decidable (t ∈ s.system.mapTransactionStates))
  | .beginTransaction t => inferInstanceAs (Decidable
      (∀ ts ∈ s.system.mapTransactionStates.lookup t, ts.participatingRegions = []))
  | .abortTransaction _ io => inferInstanceAs (Decidable (io.sendThrows = false))
  | .restart => inferInstanceAs (Decidable False)
  | .prepareCommit _ | .prepareCommitReturns _ | .doCommit _ _ | .completeRequest _ _
  | .deliver _ _ | .work _ _ | .leaseExpired _ _ _ | .recoveryRequest _ _ | .crash _ _ _
  | .addControlPoint | .recover _ _ _ => inferInstanceAs (Decidable True)

end Registrar

namespace ClientState

lemma mem_addRegion (p q : ρ) (ts : ClientState ρ) :
    q ∈ (ts.addRegion p).participatingRegions ↔ q = p ∨ q ∈ ts.participatingRegions := by
  unfold addRegion
  split_ifs with h
  · constructor
    · exact .inr
    · rintro (rfl | hq)
      · exact h
      · exact hq
  · simp [or_comm]

variable (p : ρ) (reply : Reply) (ts : ClientState ρ)

lemma addRegionToIgnore_participatingRegions :
    (ts.addRegionToIgnore p).participatingRegions = ts.participatingRegions := by
  unfold addRegionToIgnore
  split_ifs <;> rfl

lemma doPrepareX_participatingRegions :
    (ts.doPrepareX p reply).participatingRegions = ts.participatingRegions := by
  cases reply with
  | vote v =>
    cases v with
    | commitOk => rfl
    | commitOkReadOnly | commitConflict | commitUnsuccessful =>
      exact addRegionToIgnore_participatingRegions p ts
  | returned | threw _ => rfl

end ClientState

def System.participants (s : System ρ) (t : TransId) : List ρ :=
  (s.mapTransactionStates.lookup t).elim [] ClientState.participatingRegions

namespace System

variable (s : System ρ) (t u : TransId) (p : ρ)

section

omit [DecidableEq ρ]

lemma participants_putState (ts : ClientState ρ) : (s.putState u ts).participants t =
      if t = u then ts.participatingRegions else s.participants t := by
  unfold participants putState
  split_ifs with h
  · rw [h, AList.lookup_insert]
    rfl
  · rw [AList.lookup_insert_ne h]

lemma participants_removeState (h : t ≠ u) :
    (s.removeState u).participants t = s.participants t := by
  unfold participants removeState
  rw [AList.lookup_erase_ne h]

lemma participants_putState_of_lookup {ts ts' : ClientState ρ}
    (hlook : s.mapTransactionStates.lookup u = some ts)
    (hregions : ts'.participatingRegions = ts.participatingRegions) :
    (s.putState u ts').participants t = s.participants t := by
  rw [participants_putState]
  split_ifs with h
  · rw [h, hregions, participants, hlook]
    rfl
  · rfl

lemma participants_prepareCommit : (s.prepareCommit u).participants t = s.participants t := by
  unfold prepareCommit
  cases hlook : s.mapTransactionStates.lookup u with
  | none => rfl
  | some ts => exact s.participants_putState_of_lookup t u hlook rfl

end

omit [DecidableEq ρ] in
lemma participants_putForgotten : (s.putForgotten u).participants t = s.participants t := by
  unfold putForgotten
  split_ifs <;> rfl

lemma participants_doCommit (io : ClientIO) :
    (s.doCommit u io).participants t = s.participants t := by
  unfold doCommit
  cases hlook : s.mapTransactionStates.lookup u with
  | none => rfl
  | some ts =>
    have h := s.participants_putState_of_lookup t u hlook
      (rfl : { ts with status := .committed }.participatingRegions = ts.participatingRegions)
    dsimp only
    split_ifs
    · exact h
    · exact h
    · rw [participants_putForgotten]
      exact h

lemma participants_abortTransaction {io : ClientIO} (hio : io.sendThrows = false) :
    (s.abortTransaction u io).participants t = s.participants t := by
  unfold abortTransaction
  cases hlook : s.mapTransactionStates.lookup u with
  | none => rfl
  | some ts =>
    have h := s.participants_putState_of_lookup t u hlook
      (rfl : { ts with status := .aborted }.participatingRegions = ts.participatingRegions)
    simp only [hio, Bool.false_eq_true, if_false]
    split_ifs
    · exact h
    · rw [participants_putForgotten]
      exact h

lemma participants_receive (reply : Reply) :
    (s.receive p u reply).participants t = s.participants t := by
  unfold receive
  cases hlook : s.mapTransactionStates.lookup u with
  | none => rfl
  | some ts =>
    exact s.participants_putState_of_lookup t u hlook (ts.doPrepareX_participatingRegions p reply)

lemma participants_deliver (m : Message ρ) (d : Delivery) :
    (s.deliver m d).participants t = s.participants t := by
  unfold deliver
  by_cases hsent : m ∈ s.sent
  · rw [if_pos hsent]
    cases m.request with
    | commitRequest =>
      dsimp only
      split_ifs
      · exact participants_receive _ t _ _ _
      · exact participants_receive _ t _ _ _
      · rfl
      · rfl
    | commit ignoreUnknown | abort => rfl
  · rw [if_neg hsent]

omit [DecidableEq ρ] in
lemma participants_prepareCommitReturns (h : (s.prepareCommitReturns u).2 = .readOnly → t ≠ u) :
    (s.prepareCommitReturns u).1.participants t = s.participants t := by
  unfold prepareCommitReturns at h ⊢
  cases hlook : s.mapTransactionStates.lookup u with
  | none => rfl
  | some ts =>
    rw [hlook] at h
    cases hvote : ts.prepareCommit with
    | none => simp only [hvote]
    | some v =>
      cases v with
      | commitOkReadOnly =>
        simp only [hvote] at h ⊢
        exact s.participants_removeState t u (h trivial)
      | commitOk | commitConflict | commitUnsuccessful =>
        simp only [hvote]

lemma mem_participants_callRegisterRegion (q : ρ) (h : p ∈ s.participants t) :
    p ∈ (s.callRegisterRegion u q).participants t := by
  unfold callRegisterRegion
  cases hlook : s.mapTransactionStates.lookup u with
  | none => exact h
  | some ts =>
    rw [participants_putState]
    split_ifs with htu
    · rw [participants, htu, hlook] at h
      exact (ts.mem_addRegion q p).2 (.inr h)
    · exact h

lemma participants_crash (q : ρ) (base : List (TombstoneStore.Cell Bytes Bytes Bytes Bytes))
    (survived : List (ℕ × WALEdit)) :
    (s.crash q base survived).participants t = s.participants t := by
  unfold crash
  dsimp only
  split_ifs <;> rfl

omit [DecidableEq ρ] in
lemma asks_iff : Registrar.Asks s t p ↔ p ∈ s.participants t := by
  unfold Registrar.Asks prepareCommit participants
  cases s.mapTransactionStates.lookup t with
  | none => simp
  | some ts => simp [send, putState]

end System

namespace Registrar

variable {s : Registrar ρ} {event : Event ρ} {t : TransId} {p : ρ}

lemma participants_step (h : s.Orderly event) (hsett : s.settled event ≠ some t)
    (hp : p ∈ s.system.participants t) : p ∈ (s.system.step event).participants t := by
  cases event with
  | beginTransaction u =>
    change p ∈ (s.system.putState u .new).participants t
    rw [System.participants_putState]
    split_ifs with htu
    · subst htu
      unfold System.participants at hp
      cases hlook : s.system.mapTransactionStates.lookup t with
      | none =>
        rw [hlook] at hp
        exact absurd hp List.not_mem_nil
      | some ts =>
        rw [hlook] at hp
        exact absurd hp (by simp [h ts hlook])
    · exact hp
  | callRegisterRegion u q => exact s.system.mem_participants_callRegisterRegion t u p q hp
  | prepareCommit u => exact (s.system.participants_prepareCommit t u).symm ▸ hp
  | prepareCommitReturns u =>
    have hne : (s.system.prepareCommitReturns u).2 = .readOnly → t ≠ u := by
      intro hread htu
      exact hsett (by rw [settled, if_pos hread, htu])
    exact (s.system.participants_prepareCommitReturns t u hne).symm ▸ hp
  | doCommit u io => exact (s.system.participants_doCommit t u io).symm ▸ hp
  | abortTransaction u io => exact (s.system.participants_abortTransaction t u h).symm ▸ hp
  | completeRequest u throws =>
    change p ∈ (s.system.completeRequest u throws).participants t
    cases throws with
    | true => exact hp
    | false =>
      by_cases htu : t = u
      · -- The transaction has no entry, or the call would settle it.
        subst htu
        have hmem : t ∉ s.system.mapTransactionStates := by
          intro hmem
          exact hsett (by rw [settled, if_pos ⟨rfl, hmem⟩])
        rw [System.participants, AList.lookup_eq_none.2 hmem] at hp
        exact absurd hp List.not_mem_nil
      · exact (s.system.participants_removeState t u htu).symm ▸ hp
  | addControlPoint => exact hp
  | restart => exact absurd h id
  | deliver m d => exact (s.system.participants_deliver t m d).symm ▸ hp
  | work q op => cases op <;> exact hp
  | leaseExpired q u d | recoveryRequest q tm => exact hp
  | crash q base survived => exact (s.system.participants_crash t q base survived).symm ▸ hp
  | recover u audit tgts =>
    change p ∈ (s.system.recover u audit tgts).participants t
    unfold System.recover
    split_ifs <;> exact hp

omit [DecidableEq ρ] in
lemma mem_register_cases (h : (t, p) ∈ s.register event) :
    event = .callRegisterRegion t p ∨ (t, p) ∈ s.owed ∧ s.settled event ≠ some t := by
  unfold register at h
  split at h
  · obtain h | h := List.mem_append.1 h
    · exact .inr ⟨h, by simp [settled]⟩
    · obtain ⟨rfl, rfl⟩ := Prod.mk.inj (List.mem_singleton.1 h)
      exact .inl rfl
  · obtain ⟨howed, hsett⟩ := List.mem_filter.1 h
    exact .inr ⟨howed, of_decide_eq_true hsett⟩

lemma Honours.step (hs : s.Honours) (h : s.Orderly event) : (s.step event).Honours := by
  intro t p hp
  rw [System.asks_iff]
  obtain rfl | ⟨howed, hsett⟩ := mem_register_cases hp
  · change p ∈ (s.system.callRegisterRegion t p).participants t
    obtain ⟨ts, hlook⟩ := Option.isSome_iff_exists.1 (AList.lookup_isSome.2 h)
    unfold System.callRegisterRegion
    rw [hlook]
    rw [System.participants_putState, if_pos rfl]
    exact (ts.mem_addRegion p p).2 (.inl rfl)
  · exact participants_step h hsett ((s.system.asks_iff t p).1 (hs t p howed))

/-- In every run of the client with its regions, whatever has been registered is asked to vote. -/
theorem no_lost_participant (setup : Setup ρ) (tables : ρ → TableDescriptor)
    (store : ρ → List (TombstoneStore.Cell Bytes Bytes Bytes Bytes)) {events p : List (Event ρ)}
    (h : Runs.Guarded step Orderly ⟨System.start setup tables store, []⟩ events)
    (hp : p <+: events) : (Runs.run step ⟨System.start setup tables store, []⟩ p).Honours := by
  refine h.invariant_prefix ?_ ?_ hp
  · exact fun s event hs hevent => hs.step hevent
  · exact fun t q hq => absurd hq List.not_mem_nil

def idle : Registrar Bool :=
  ⟨System.start sampleSetup (fun _ => ⟨[[1]], one_family_nonempty⟩) fun _ => [], []⟩

theorem two_transactions_honoured :
    let events := [.beginTransaction 5, .callRegisterRegion 5 true, .beginTransaction 6,
      .callRegisterRegion 6 false, .callRegisterRegion 5 false, .prepareCommit 6]
    Runs.Guarded step Orderly idle events ∧ (Runs.run step idle events).Honours := by
  intro events
  have horderly : Runs.Guarded step Orderly idle events := by decide
  exact ⟨horderly, no_lost_participant _ _ _ horderly (List.prefix_refl events)⟩

/-- A region is registered for a transaction that the client does not know, and for one that
begins again. -/
theorem registration_lost : ¬ (Runs.run step idle [.callRegisterRegion 5 true]).Honours ∧
      ¬ (Runs.run step idle [.beginTransaction 5, .callRegisterRegion 5 true,
        .beginTransaction 5]).Honours := by
  constructor <;> exact fun h => absurd (h 5 true (by decide)) (by decide)

end Registrar

end Trafodion.TwoPhaseCommit
