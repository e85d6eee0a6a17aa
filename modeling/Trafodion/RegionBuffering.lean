import Trafodion.RegionInvariant

/-!
# Calls that buffer

Reads, puts, deletes and the checked forms change the state of one transaction, which they
begin if it is not known. They add scan ranges and writes and leave the rest alone.
-/
namespace Trafodion.Region

open TransactionState

/-- `s'` is `s` with more reads and writes. -/
structure TransactionState.Buffered (s s' : TransactionState) : Prop where
  frame : s' = { s with
    scans := s'.scans, writeOrdering := s'.writeOrdering, edit := s'.edit }
  logged : (s.edit = [] → s.writeOrdering = []) → s'.edit = [] → s'.writeOrdering = []

namespace TransactionState.Buffered

variable {s s' s'' : TransactionState}

lemma trans (h : Buffered s s') (h' : Buffered s' s'') : Buffered s s'' := by
  constructor
  · rw [h'.frame, h.frame]
  · exact fun hold => h'.logged (h.logged hold)

lemma addScan (range : ScanRange) (s : TransactionState) : Buffered s (s.addScan range) :=
  ⟨rfl, fun h => h⟩

lemma addWrite (htd : TableDescriptor) (now : ℕ) (p : Put) (s : TransactionState) :
    Buffered s (s.addWrite htd now p) :=
  ⟨rfl, fun _ hedit => absurd hedit (addMutation_edit_ne_nil htd now (.put p) s)⟩

lemma addDelete (htd : TableDescriptor) (now : ℕ) (d : Delete) (s : TransactionState) :
    Buffered s (s.addDelete htd now d) :=
  ⟨rfl, fun _ hedit => absurd hedit (addMutation_edit_ne_nil htd now (.delete d) s)⟩

end TransactionState.Buffered

namespace Op

def buffers (htd : TableDescriptor) :
    Op → Option (TransId × (TransactionState → TransactionState))
  | .getScanner t range => some (t, addScan range)
  | .put t now p => some (t, addWrite htd now p)
  | .delete t now d => some (t, addDelete htd now d)
  | .checkAndPut t row matched now p => some (t, fun s =>
      if matched then (s.addScan ⟨some row, some row⟩).addWrite htd now p
      else s.addScan ⟨some row, some row⟩)
  | .checkAndDelete t row matched now d => some (t, fun s =>
      if matched then (s.addScan ⟨some row, some row⟩).addDelete htd now d
      else s.addScan ⟨some row, some row⟩)
  | _ => none

variable {htd : TableDescriptor} {op : Op} {t : TransId}
  {g : TransactionState → TransactionState}

section
variable (h : op.buffers htd = some (t, g))
include h

lemma buffered_of_buffers (s : TransactionState) : s.Buffered (g s) := by
  cases op with
  | getScanner t' range =>
    cases h
    exact .addScan range s
  | put t' now p =>
    cases h
    exact .addWrite htd now p s
  | delete t' now d =>
    cases h
    exact .addDelete htd now d s
  | checkAndPut t' row matched now p =>
    cases h
    cases matched with
    | false => exact .addScan _ s
    | true => exact (TransactionState.Buffered.addScan _ s).trans (.addWrite htd now p _)
  | checkAndDelete t' row matched now d =>
    cases h
    cases matched with
    | false => exact .addScan _ s
    | true => exact (TransactionState.Buffered.addScan _ s).trans (.addDelete htd now d _)
  | _ => cases h

lemma transactionId_of_buffers : op.transactionId = some t := by
  cases op <;> cases h <;> rfl

lemma writeRows_of_buffers (s : TransactionState) :
    (g s).writeRows = s.writeRows ++ op.writtenRows := by
  have hwrite : ∀ (now : ℕ) (p : Put) (s : TransactionState),
      (s.addWrite htd now p).writeRows = s.writeRows ++ [p.row] := fun now p s => by
    simp [writeRows, addWrite, addAction, addRead, WriteAction.getRow, Put.stamp]
  have hdelete : ∀ (now : ℕ) (d : Delete) (s : TransactionState),
      (s.addDelete htd now d).writeRows = s.writeRows ++ [d.row] := fun now d s => by
    simp [writeRows, addDelete, addAction, WriteAction.getRow, Delete.stamp]
  have hscan : ∀ (range : ScanRange) (s : TransactionState),
      (s.addScan range).writeRows = s.writeRows := fun _ _ => rfl
  cases op with
  | getScanner t' range =>
    cases h
    simp [hscan, writtenRows]
  | put t' now p =>
    cases h
    exact hwrite now p s
  | delete t' now d =>
    cases h
    exact hdelete now d s
  | checkAndPut t' row matched now p =>
    cases h
    cases matched <;> simp [hwrite, hscan, writtenRows]
  | checkAndDelete t' row matched now d =>
    cases h
    cases matched <;> simp [hdelete, hscan, writtenRows]
  | _ => cases h

end

end Op

namespace Endpoint

lemma foldl_reinstate_tabledescriptor (l : List TransId) (e : Endpoint) :
    (l.foldl reinstate e).tabledescriptor = e.tabledescriptor := by
  induction l generalizing e with
  | nil => rfl
  | cons t l ih => exact ih (e.reinstate t)

lemma beginTransIfNotExist_tabledescriptor (t : TransId) (e : Endpoint) :
    (e.beginTransIfNotExist t).tabledescriptor = e.tabledescriptor := by
  have hconstruct : e.constructIndoubtTransactions.tabledescriptor = e.tabledescriptor := by
    unfold constructIndoubtTransactions
    split_ifs
    · rfl
    · rfl
    · exact foldl_reinstate_tabledescriptor _ e
  unfold beginTransIfNotExist beginTransaction
  dsimp only
  split
  · rfl
  · split <;> split_ifs
    · rfl
    · exact hconstruct
    · rfl
    · exact hconstruct

variable {t : TransId} {r : Ref} {e : Endpoint}

lemma onState_of_known
    (hr : e.transactionsById.lookup t = some r) (f : StateMap) :
    e.onState t f = e.modify r f := by
  have hbegin : e.beginTransIfNotExist t = e := by
    simp only [beginTransIfNotExist, hr]
  simp only [onState, hbegin, hr]

lemma onState_onState (t : TransId) (f g : StateMap)
    (e : Endpoint) : (e.onState t f).onState t g = e.onState t fun s => g (f s) := by
  obtain ⟨r, hr, heq⟩ := onState_eq t f e
  obtain ⟨r', hr', heq'⟩ := onState_eq t (fun s => g (f s)) e
  obtain rfl : r = r' := Option.some.inj (hr.symm.trans hr')
  have hknown : ((e.beginTransIfNotExist t).modify r f).transactionsById.lookup t = some r := hr
  rw [heq, heq', onState_of_known hknown]
  simp [modify]

lemma step_of_buffers {op : Op} {g : StateMap}
    (h : op.buffers e.tabledescriptor = some (t, g)) : e.step op = e.onState t g := by
  have htd : ∀ (t : TransId) (f : StateMap),
      (e.onState t f).tabledescriptor = e.tabledescriptor := by
    intro t f
    obtain ⟨r, -, heq⟩ := onState_eq t f e
    rw [heq]
    exact beginTransIfNotExist_tabledescriptor t e
  cases op with
  | getScanner t' range =>
    cases h
    rfl
  | put t' now p =>
    cases h
    rfl
  | delete t' now d =>
    cases h
    rfl
  | checkAndPut t' row matched now p =>
    cases h
    cases matched with
    | false => rfl
    | true =>
      exact onState_onState _ _ _ e
  | checkAndDelete t' row matched now d =>
    cases h
    cases matched with
    | false => rfl
    | true =>
      simp only [step, call, checkAndDelete, get, getScanner, delete, if_true, htd]
      exact onState_onState _ _ _ e
  | _ => cases h

end Endpoint

end Trafodion.Region
