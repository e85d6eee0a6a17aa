import Mathlib.Data.Prod.Lex
import Trafodion.NestedJoinPhases

/-!
# What a nested join does

The work procedures, seen without their loops and without the queues: the requests under way, what
each of them still has to come, and what the parent was sent. One move takes one request, one left
entry or one right entry, ends a request, or lets an entry arrive; `due` counts those that have not
arrived. Each move makes what is left to be done smaller.
-/
namespace Trafodion.NestedJoin

open List Function Pipelines Track

variable {α β : Type}

structure View (α β : Type) where
  head : ℕ
  phaseOne : ℕ
  tail : ℕ
  noMore : ℕ → Bool
  matched : ℕ → Bool
  track : ℕ → Track α β
  up : List (Option (UpEntry α β))
  raised : List ℕ
  due : ℕ

open View

namespace View

variable (v : View α β)

def ids : List ℕ := range' v.head (v.phaseOne - v.head)

def setTrack (k : ℕ) (g : Track α β) : View α β := { v with track := update v.track k g }

variable (s : Sent α β) (ss : List (Sent α β))

/-- The replies `xs` to the first of the left rows are left. -/
def next (xs : List (Item β)) : View α β :=
  v.setTrack v.head { v.track v.head with sent := { s with rest := xs } :: ss }

def finished : View α β :=
  { v.setTrack v.head { v.track v.head with sent := ss } with
    matched := update v.matched v.head false }

def put (es : List (UpStatus α β)) : View α β :=
  { v with up := v.up ++ es.map fun s => some ⟨v.head, s⟩ }

def cancel (k : ℕ) : View α β := { v with noMore := update v.noMore k true }

def setMatched : View α β := { v with matched := update v.matched v.head true }

structure First (s : Sent α β) (ss : List (Sent α β)) : Prop where
  lt : v.head < v.phaseOne
  sent : (v.track v.head).sent = s :: ss

def Extends (j : Tdb α β) : Prop :=
  (j.kind = .left ∨ j.kind = .anti) ∧ v.matched v.head = false ∧ v.noMore v.head = false

end View

variable (j : Tdb α β)

def Tdb.joined (l : α) (r : β) : List (α × Option β) :=
  if j.kind ≠ .anti ∧ j.afterPred l (Tcb.rightPart j r) = .yes then [(l, Tcb.rightPart j r)] else []

def Tdb.extended (l : α) : List (α × Option β) :=
  if j.afterPred l none = .yes then [(l, none)] else []

def errorOf (e : LeftEntry α) : List (UpStatus α β) :=
  if Tcb.isError e.reply then [.sqlError] else []

inductive Move (j : Tdb α β) (c : Children α β) : View α β → View α β → Prop
  | sendLeft {v : View α β} (n : ℕ) (h : v.phaseOne < v.tail) :
    Move j c v
      { v.setTrack v.phaseOne (.new (c.left v.phaseOne) (v.noMore v.phaseOne)) with
        phaseOne := v.phaseOne + 1
        matched := update v.matched v.phaseOne false
        due := n }
  | keepLeft {v : View α β} {k : ℕ} {e : LeftEntry α} {i : Item α} {is : List (Item α)}
    (hk : k ∈ v.ids) (hrest : (v.track k).rest = some (i :: is))
    (h : v.noMore k = true ∨ i = .error) :
    Move j c v ((v.setTrack k ((v.track k).keep e (some is))).cancel k)
  | sendRight {v : View α β} {k i n : ℕ} (m : ℕ) {l : α} {is : List (Item α)} (hk : k ∈ v.ids)
    (hrest : (v.track k).rest = some (.row l :: is)) (hno : v.noMore k = false) :
    Move j c v
      { v.setTrack k ((v.track k).send ⟨i, l, Tcb.rightItems j c n l⟩ is) with due := m }
  | endLeft {v : View α β} {k : ℕ} {e : LeftEntry α} (hk : k ∈ v.ids)
    (hrest : (v.track k).rest = some []) (h : e.reply = none) :
    Move j c v (v.setTrack k ((v.track k).keep e none))
  | skipItem {v : View α β} {s : Sent α β} {ss : List (Sent α β)} {x : Item β} {xs : List (Item β)}
    (hfirst : v.First s ss) (hrest : s.rest = x :: xs)
    (h : v.noMore v.head = true ∨ j.beforePred s.left = .no) : Move j c v (v.next s ss xs)
  | childError {v : View α β} {s : Sent α β} {ss : List (Sent α β)} {xs : List (Item β)}
    (hfirst : v.First s ss) (hrest : s.rest = .error :: xs) :
    Move j c v (((v.next s ss xs).put [.sqlError]).cancel v.head)
  | joinRow {v : View α β} {s : Sent α β} {ss : List (Sent α β)} {r : β} {xs : List (Item β)}
    (hfirst : v.First s ss) (hrest : s.rest = .row r :: xs) (hbefore : j.beforePred s.left = .yes) :
    Move j c v ((v.next s ss xs).setMatched.put ((j.joined s.left r).map .okMmore))
  | evalError {v : View α β} {s : Sent α β} {ss : List (Sent α β)} {r : β} {xs : List (Item β)}
    (hfirst : v.First s ss) (hrest : s.rest = .row r :: xs)
    (h : j.afterPred s.left (Tcb.rightPart j r) = .error ∨
      ∃ f, j.ljExpr = some f ∧ f s.left r = .error) :
    Move j c v
      { ((v.next s ss xs).setMatched.put [.sqlError]).cancel v.head with
        raised := v.raised ++ [v.head] }
  | endRight {v : View α β} {s : Sent α β} {ss : List (Sent α β)} (hfirst : v.First s ss)
    (hrest : s.rest = []) (h : ¬v.Extends j) : Move j c v (v.finished ss)
  | nullExtend {v : View α β} {s : Sent α β} {ss : List (Sent α β)} (hfirst : v.First s ss)
    (hrest : s.rest = []) (h : v.Extends j) :
    Move j c v ((v.finished ss).put ((j.extended s.left).map .okMmore))
  | dropLeft {v : View α β} {e : LeftEntry α} {es : List (LeftEntry α)} (hlt : v.head < v.phaseOne)
    (hsent : (v.track v.head).sent = []) (honly : (v.track v.head).only = e :: es) :
    Move j c v ((v.setTrack v.head { v.track v.head with only := es }).put (errorOf e))
  | endRequest {v : View α β} (hlt : v.head < v.phaseOne) (hsent : (v.track v.head).sent = [])
    (honly : (v.track v.head).only = []) (hrest : (v.track v.head).rest = none) :
    Move j c v { v.put [.noData] with head := v.head + 1 }
  | arrive {v : View α β} {n : ℕ} (h : n < v.due) : Move j c v { v with due := n }
  | cutLeft {v : View α β} {k n : ℕ} {is js : List (Item α)} (hk : k ∈ v.ids) (h : n < v.due)
    (hno : ∃ x, v.noMore x = true) (hrest : (v.track k).rest = some (is ++ js)) :
    Move j c v { v.setTrack k { v.track k with rest := some is } with due := n }
  | cutRight {v : View α β} {k n : ℕ} {ss ss' : List (Sent α β)} {s : Sent α β}
    {is js : List (Item β)} (hk : k ∈ v.ids) (h : n < v.due) (hno : ∃ x, v.noMore x = true)
    (hsent : (v.track k).sent = ss ++ s :: ss') (hrest : s.rest = is ++ js) :
    Move j c v
      { v.setTrack k { v.track k with sent := ss ++ { s with rest := is } :: ss' } with due := n }

inductive Quiet (j : Tdb α β) : View α β → View α β → Prop
  | setMatched {v : View α β} {s : Sent α β} {ss : List (Sent α β)} {r : β} {xs : List (Item β)}
    (hfirst : v.First s ss) (hrest : s.rest = .row r :: xs) : Quiet j v v.setMatched

def Moves (c : Children α β) : View α β → View α β → Prop :=
  Relation.ReflTransGen fun v w => Move j c v w ∨ Quiet j v w

variable {j : Tdb α β} {c : Children α β} {v w : View α β}

/-! ### What is left to be done -/

namespace View

/-- Requests not sent to the left child, left entries to come, right entries to come, left entries
to be dropped, requests to be ended, entries that have not arrived. -/
def rank (v : View α β) : ℕ ×ₗ ℕ ×ₗ ℕ ×ₗ ℕ ×ₗ ℕ ×ₗ ℕ :=
  toLex (v.tail - v.phaseOne, toLex ((stream (v.ids.flatMap fun k => (v.track k).coming k)).length,
      toLex ((stream (v.ids.flatMap fun k => (v.track k).replies)).length,
        toLex ((v.ids.flatMap fun k => (v.track k).only).length,
          toLex (v.phaseOne - v.head, v.due)))))

def less (v : View α β) (k n : ℕ) (g : Track α β) : Prop :=
  (stream (g.coming k)).length < (stream ((v.track k).coming k)).length ∨
  (stream (g.coming k)).length = (stream ((v.track k).coming k)).length ∧
  ((stream g.replies).length < (stream (v.track k).replies).length ∨
  (stream g.replies).length = (stream (v.track k).replies).length ∧
  (g.only.length < (v.track k).only.length ∨
  g.only.length = (v.track k).only.length ∧ n < v.due))

lemma rank_setTrack {k n : ℕ} {g : Track α β} (hk : k ∈ v.ids) (h : v.less k n g) :
    ({ v.setTrack k g with due := n } : View α β).rank < v.rank := by
  obtain ⟨a, b, hids⟩ := append_of_mem hk
  have hnd : v.ids.Nodup := nodup_range'
  have hset : ({ v.setTrack k g with due := n } : View α β).ids = v.ids := rfl
  unfold less at h
  rw [rank, rank, hset]
  simp only [setTrack]
  rw [flatMap_update hids hnd coming, flatMap_update hids hnd (fun _ => replies),
    flatMap_update hids hnd (fun _ => only), flatMap_parts hids coming,
    flatMap_parts hids (fun _ => replies), flatMap_parts hids (fun _ => only)]
  simp only [stream_append, length_append, Prod.Lex.toLex_lt_toLex, true_and]
  omega

end View

variable {k : ℕ} {g : Track α β}

lemma length_coming {l : List (Item α)} (h : g.rest = some l) :
    (stream (g.coming k)).length = l.length + 1 := by
  rw [coming, h]
  simp [stream_cons]

lemma coming_nil (h : g.rest = none) : g.coming k = [] := by
  rw [coming, h]
  rfl

lemma View.head_mem (hlt : v.head < v.phaseOne) : v.head ∈ v.ids := by
  rw [ids, mem_range'_1]
  omega

section
variable {s : Sent α β} {ss : List (Sent α β)}

lemma View.First.replies (h : v.First s ss) : (stream (v.track v.head).replies).length =
      s.rest.length + 1 + (stream (ss.map fun s => (s.index, s.rest))).length := by
  rw [Track.replies, h.sent, map_cons, Pipelines.stream_cons]
  simp only [length_append, length_map, length_cons]
  omega

lemma View.First.next_lt {x : Item β} {xs : List (Item β)}
    (h : v.First s ss) (hrest : s.rest = x :: xs) : (v.next s ss xs).rank < v.rank := by
  refine View.rank_setTrack (View.head_mem h.lt) (.inr ⟨rfl, .inl ?_⟩)
  rw [h.replies, hrest]
  simp [Track.replies, Pipelines.stream_cons]
  omega

lemma View.First.finished_lt (h : v.First s ss)
    (hrest : s.rest = []) : (v.finished ss).rank < v.rank := by
  refine View.rank_setTrack (View.head_mem h.lt) (.inr ⟨rfl, .inl ?_⟩)
  rw [h.replies, hrest]
  simp [Track.replies]

end

/-- **Each move** makes what is left smaller. -/
theorem Move.rank_lt (h : Move j c v w) : w.rank < v.rank := by
  cases h with
  | sendLeft n h =>
    simp only [rank, setTrack, Prod.Lex.toLex_lt_toLex]
    omega
  | keepLeft hk hrest h =>
    refine rank_setTrack hk (.inl ?_)
    rw [length_coming hrest, length_coming (l := _) rfl]
    exact Nat.lt_succ_self _
  | sendRight m hk hrest hno =>
    refine rank_setTrack hk (.inl ?_)
    rw [length_coming hrest, length_coming (l := _) rfl]
    exact Nat.lt_succ_self _
  | endLeft hk hrest h =>
    refine rank_setTrack hk (.inl ?_)
    rw [length_coming hrest, coming_nil rfl]
    exact Nat.zero_lt_one
  | skipItem hfst hrest h => exact hfst.next_lt hrest
  | childError hfst hrest => exact hfst.next_lt hrest
  | joinRow hfst hrest hbef => exact hfst.next_lt hrest
  | evalError hfst hrest h => exact hfst.next_lt hrest
  | endRight hfst hrest h => exact hfst.finished_lt hrest
  | nullExtend hfst hrest h => exact hfst.finished_lt hrest
  | dropLeft hlt hsent honly =>
    refine rank_setTrack (head_mem hlt) (.inr ⟨rfl, .inr ⟨rfl, .inl ?_⟩⟩)
    rw [honly]
    exact Nat.lt_succ_self _
  | endRequest hlt hsent honly hrest =>
    have hids : v.ids = v.head :: ({ v.put [.noData] with head := v.head + 1 } : View α β).ids := by
      simp only [ids, put]
      rw [show v.phaseOne - v.head = (v.phaseOne - (v.head + 1)) + 1 by omega, range'_succ]
    unfold rank
    rw [hids]
    simp only [flatMap_cons, coming_nil hrest, replies, hsent, honly, put,
      Prod.Lex.toLex_lt_toLex, map_nil, nil_append, true_and]
    omega
  | arrive h =>
    simp only [rank, ids, Prod.Lex.toLex_lt_toLex, true_and]
    omega
  | cutLeft hk h hno hrest =>
    refine rank_setTrack hk ?_
    unfold less
    rw [length_coming hrest, length_coming (l := _) rfl, length_append]
    simp only [replies, true_and]
    omega
  | cutRight hk h hno hsent hrest =>
    refine rank_setTrack hk ?_
    have hlen := congrArg length hrest
    rw [length_append] at hlen
    unfold less
    simp only [coming, replies, hsent, map_append, map_cons,
      stream_append, stream_cons, length_append, length_map,
      length_cons, true_and]
    omega

lemma Quiet.rank_eq (h : Quiet j v w) : w.rank = v.rank := by
  cases h with
  | setMatched hfst hrest => rfl

lemma Moves.rank_le (h : Moves j c v w) : w.rank ≤ v.rank := by
  induction h with
  | refl => exact le_rfl
  | tail _ hstep ih =>
    obtain hmove | hquiet := hstep
    · exact hmove.rank_lt.le.trans ih
    · exact hquiet.rank_eq.le.trans ih

end Trafodion.NestedJoin
