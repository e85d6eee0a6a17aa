import Trafodion.NestedJoinMoves

/-!
# The answers of a nested join

What the parent is sent consists of one block for each request that was ended, in order, and the
beginning of the block of the request at the head.
-/
namespace Trafodion.NestedJoin

open List Function UpStatus

variable {α β : Type} {j : Tdb α β} {c : Children α β} {v w : View α β}

def UpStatus.isError : UpStatus α β → Bool
  | .sqlError => true
  | _ => false

def answer (k : ℕ) (b : List (UpStatus α β)) : List (UpEntry α β) :=
  b.map (UpEntry.mk k) ++ [⟨k, .noData⟩]

/-- The requests below `head` were answered with these blocks, and that at `head` in part. -/
def sentUp (block : ℕ → List (UpStatus α β)) (head : ℕ) : List (UpEntry α β) :=
  (range head).flatMap (fun k => answer k (block k)) ++ (block head).map (UpEntry.mk head)

structure Answered (block : ℕ → List (UpStatus α β)) (v : View α β) : Prop where
  noEnd : ∀ k, .noData ∉ block k
  up : v.up = (sentUp block v.head).map some
  later : ∀ k, v.head < k → block k = []
  idle : v.phaseOne ≤ v.head → block v.head = []
  raised : ∀ k, v.raised.count k ≤ (block k).countP isError

variable {block : ℕ → List (UpStatus α β)}

lemma sentUp_update (block : ℕ → List (UpStatus α β)) (head : ℕ) (es : List (UpStatus α β)) :
    sentUp (update block head (block head ++ es)) head =
      sentUp block head ++ es.map (UpEntry.mk head) := by
  have hbelow : (range head).flatMap (fun k => answer k (update block head (block head ++ es) k)) =
      (range head).flatMap fun k => answer k (block k) :=
    flatMap_congr fun k hk => by
      rw [update_of_ne (mem_range.1 hk).ne]
  rw [sentUp, sentUp, hbelow, update_self, map_append, append_assoc]

lemma sentUp_succ {head : ℕ} (h : block (head + 1) = []) :
    sentUp block (head + 1) = sentUp block head ++ [⟨head, .noData⟩] := by
  rw [sentUp, sentUp, h, range_succ, flatMap_append, flatMap_singleton, answer,
    map_nil, append_nil, append_assoc]

lemma Answered.same (h : Answered block v) (hhead : w.head = v.head) (hup : w.up = v.up)
    (hraised : w.raised = v.raised) (hidle : w.phaseOne ≤ w.head → v.phaseOne ≤ v.head) :
    Answered block w :=
  ⟨h.noEnd, by rw [hup, hhead]; exact h.up, by rw [hhead]; exact h.later,
    fun hw => by rw [hhead]; exact h.idle (hidle hw), by rw [hraised]; exact h.raised⟩

section
variable {es : List (UpStatus α β)} (h : Answered block v) (hlt : v.head < v.phaseOne)
  (hes : .noData ∉ es) (hhead : w.head = v.head) (hone : w.phaseOne = v.phaseOne)
  (hup : w.up = v.up ++ es.map fun s => some ⟨v.head, s⟩)
include h hlt hes hhead hone hup

lemma Answered.put (hraised : ∀ k, w.raised.count k ≤
      v.raised.count k + if k = v.head then es.countP isError else 0) :
    ∃ block', Answered block' w := by
  refine ⟨update block v.head (block v.head ++ es), fun k => ?_, ?_, fun k hk => ?_,
    fun hidle => by omega, fun k => ?_⟩
  · by_cases hk : k = v.head
    · subst hk
      rw [update_self, mem_append]
      exact fun hmem => hmem.elim (h.noEnd _) hes
    · rw [update_of_ne hk]
      exact h.noEnd k
  · rw [hup, h.up, hhead, sentUp_update, map_append, map_map]
    rfl
  · rw [hhead] at hk
    rw [update_of_ne hk.ne']
    exact h.later k hk
  · refine (hraised k).trans ?_
    by_cases hk : k = v.head
    · subst hk
      rw [if_pos rfl, update_self, countP_append]
      exact Nat.add_le_add_right (h.raised _) _
    · rw [if_neg hk, update_of_ne hk]
      exact h.raised k

lemma Answered.silent (hraised : w.raised = v.raised) : ∃ block', Answered block' w :=
  h.put hlt hes hhead hone hup fun k => by
    rw [hraised]
    exact Nat.le_add_right _ _

end

lemma noData_notMem_rows (rows : List (α × Option β)) : noData ∉ rows.map .okMmore := by
  simp

lemma Answered.move (h : Answered block v) (hmove : Move j c v w) : ∃ block', Answered block' w := by
  cases hmove with
  | sendLeft n hlt =>
    exact ⟨block, h.same rfl rfl rfl fun hidle => (Nat.le_succ _).trans hidle⟩
  | childError hfst hrest =>
    have hes : noData ∉ ([.sqlError] : List (UpStatus α β)) := by simp
    exact h.silent hfst.lt hes rfl rfl rfl rfl
  | joinRow hfst hrest hbef =>
    exact h.silent hfst.lt (noData_notMem_rows _) rfl rfl rfl rfl
  | evalError hfst hrest hfail =>
    have hes : noData ∉ ([.sqlError] : List (UpStatus α β)) := by simp
    refine h.put hfst.lt hes rfl rfl rfl fun k => ?_
    dsimp only
    rw [count_append, count_singleton]
    by_cases hk : k = v.head
    · rw [if_pos hk, if_pos (by simp [hk])]
      rfl
    · rw [if_neg hk, if_neg (by simpa using Ne.symm hk)]
  | nullExtend hfst hrest hext =>
    exact h.silent hfst.lt (noData_notMem_rows _) rfl rfl rfl rfl
  | dropLeft hlt hsent honly =>
    refine h.silent hlt ?_ rfl rfl rfl rfl
    unfold errorOf
    split_ifs <;> simp
  | endRequest hlt hsent honly hrest =>
    have hnext : block (v.head + 1) = [] := h.later _ (Nat.lt_succ_self _)
    refine ⟨block, h.noEnd, ?_, fun k hk => h.later k (Nat.lt_of_succ_lt hk), fun _ => hnext,
      h.raised⟩
    simp only [View.put]
    rw [sentUp_succ hnext, h.up, map_append]
    rfl
  | _ => exact ⟨block, h.same rfl rfl rfl id⟩

lemma Answered.quiet (h : Answered block v) (hquiet : Quiet j v w) : Answered block w := by
  cases hquiet with
  | setMatched hfst hrest => exact h.same rfl rfl rfl id

lemma Answered.moves (h : Answered block v) (hmov : Moves j c v w) :
    ∃ block', Answered block' w := by
  induction hmov with
  | refl => exact ⟨block, h⟩
  | tail _ hstep ih =>
    obtain ⟨block', h'⟩ := ih
    obtain hmove | hquiet := hstep
    · exact h'.move hmove
    · exact ⟨block', h'.quiet hquiet⟩

lemma Move.up_prefix (h : Move j c v w) : v.up <+: w.up := by
  cases h with
  | childError hfst hrest => exact prefix_append _ _
  | joinRow hfst hrest hbef => exact prefix_append _ _
  | evalError hfst hrest hfail => exact prefix_append _ _
  | nullExtend hfst hrest hext => exact prefix_append _ _
  | dropLeft hlt hsent honly => exact prefix_append _ _
  | endRequest hlt hsent honly hrest => exact prefix_append _ _
  | _ => exact prefix_refl _

lemma Moves.up_prefix (h : Moves j c v w) : v.up <+: w.up := by
  induction h with
  | refl => exact prefix_refl _
  | tail _ hstep ih =>
    obtain hmove | hquiet := hstep
    · exact ih.trans hmove.up_prefix
    · cases hquiet
      exact ih

lemma Move.tail_eq (h : Move j c v w) : w.tail = v.tail := by
  cases h <;> rfl

lemma Moves.tail_eq (h : Moves j c v w) : w.tail = v.tail := by
  induction h with
  | refl => rfl
  | tail _ hstep ih =>
    obtain hmove | hquiet := hstep
    · exact hmove.tail_eq.trans ih
    · cases hquiet
      exact ih

end Trafodion.NestedJoin
