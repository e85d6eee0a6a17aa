import Trafodion.NestedJoinRounds

/-!
# A nested join computes the join

Without errors and cancelled requests, what was sent for the request at the head and what is owed for
its left rows are together the join, at every move.
-/
namespace Trafodion.NestedJoin

open List Function Tcb Tdb View Runs

variable {α β : Type} {j : Tdb α β} {c : Children α β} {v w : View α β}

/-! ### The join -/

namespace Tdb

def matching (j : Tdb α β) (right : α → List β) (l : α) : List β :=
  if j.beforePred l = .yes then right l else []

def joinRow (j : Tdb α β) (right : α → List β) (l : α) : List (α × Option β) :=
  let pairs := ((j.matching right l).map fun r => (l, some r)).filter
    fun p => j.afterPred l p.2 = .yes
  let alone := [(l, none)].filter fun p => j.afterPred l p.2 = .yes
  match j.kind with
  | .inner => pairs
  | .left => if j.matching right l = [] then alone else pairs
  | .semi => if j.matching right l = [] then [] else alone
  | .anti => if j.matching right l = [] then alone else []

def join (j : Tdb α β) (right : α → List β) (ls : List α) : List (α × Option β) :=
  ls.flatMap (j.joinRow right)

structure Total (j : Tdb α β) : Prop where
  before : ∀ l, j.beforePred l ≠ .error
  lj : ∀ f, j.ljExpr = some f → ∀ l r, f l r ≠ .error
  after : ∀ l r, j.afterPred l r ≠ .error

lemma Total.reports (h : j.Total) : j.Reports := ⟨h.before, fun _ l => h.after l none⟩

end Tdb

def rowsOnly (left : ℕ → List α) (right : α → List β) : Children α β where
  left := fun k => (left k).map .row
  right := fun _ l => (right l).map .row

/-! ### What is owed -/

def Tdb.joinedItem (j : Tdb α β) (l : α) : Item β → List (α × Option β)
  | .row r => j.joined l r
  | .error => []

def Tdb.owed (j : Tdb α β) (matched : Bool) (s : Sent α β) : List (α × Option β) :=
  s.rest.flatMap (j.joinedItem s.left) ++
    if (j.kind = .left ∨ j.kind = .anti) ∧ matched = false ∧ s.rest = [] then j.extended s.left else []

def Tdb.owedSent (j : Tdb α β) (matched : Bool) : List (Sent α β) → List (α × Option β)
  | [] => []
  | s :: ss => j.owed matched s ++ ss.flatMap (j.owed false)

def Tdb.owedItem (j : Tdb α β) (right : α → List β) : Item α → List (α × Option β)
  | .row l => j.joinRow right l
  | .error => []

def Tdb.owing (j : Tdb α β) (right : α → List β) (matched : Bool) (g : Track α β) :
    List (α × Option β) :=
  j.owedSent matched g.sent ++ (g.rest.getD []).flatMap (j.owedItem right)

lemma owedSent_false (ss : List (Sent α β)) : j.owedSent false ss = ss.flatMap (j.owed false) := by
  cases ss with
  | nil => rfl
  | cons s ss => rw [owedSent, flatMap_cons]

lemma owedSent_append {ss ss' : List (Sent α β)} {m : Bool} (h : ss = [] → m = false) :
    j.owedSent m (ss ++ ss') = j.owedSent m ss ++ ss'.flatMap (j.owed false) := by
  cases ss with
  | nil =>
    rw [h rfl, owedSent_false]
    rfl
  | cons s ss =>
    rw [cons_append, owedSent, owedSent, flatMap_append, append_assoc]

variable {s : Sent α β}

variable {r : β} {xs : List (Item β)}

lemma owed_item (h : s.rest = .row r :: xs) (m : Bool) :
    j.owed m s = j.joined s.left r ++ j.owed true { s with rest := xs } := by
  simp [owed, h, joinedItem]

lemma filter_pair (j : Tdb α β) (l : α) (r : Option β) :
    ([(l, r)].filter fun p => j.afterPred l p.2 = .yes) =
      if j.afterPred l r = .yes then [(l, r)] else [] := by
  split_ifs with h
  · rw [filter_cons_of_pos (by simpa using h), filter_nil]
  · rw [filter_cons_of_neg (by simpa using h), filter_nil]

lemma flatMap_joined (j : Tdb α β) (hkind : j.kind = .inner ∨ j.kind = .left) (l : α) (rs : List β) :
    (rs.map Item.row).flatMap (j.joinedItem l) =
      (rs.map fun r => (l, some r)).filter fun p => j.afterPred l p.2 = .yes := by
  have hpart : ∀ r, j.joined l r = if j.afterPred l (some r) = .yes then [(l, some r)] else [] := by
    intro r
    obtain hkind | hkind := hkind <;> simp [joined, rightPart, hkind]
  induction rs with
  | nil => rfl
  | cons r rs ih =>
    rw [map_cons, flatMap_cons, ih, map_cons, joinedItem, hpart, ← filter_pair, ← filter_append]
    rfl

lemma owed_new (j : Tdb α β) (left : ℕ → List α) (right : α → List β) (index n : ℕ) (l : α) :
    j.owed false ⟨index, l, rightItems j (rowsOnly left right) n l⟩ = j.joinRow right l := by
  have hitems : rightItems j (rowsOnly left right) n l =
      if j.kind = .semi ∨ j.kind = .anti then firstRow ((j.matching right l).map .row)
      else (j.matching right l).map .row := by
    unfold rightItems matching rowsOnly
    split_ifs <;> rfl
  rw [owed, hitems]
  generalize hms : j.matching right l = ms
  cases hkind : j.kind with
  | inner =>
    simp only [joinRow, hkind, hms, reduceCtorEq, or_self, false_and, if_false, append_nil]
    exact flatMap_joined j (.inl hkind) l ms
  | left =>
    simp only [joinRow, hkind, hms, reduceCtorEq, or_false, true_and, if_false]
    rw [flatMap_joined j (.inr hkind)]
    cases ms with
    | nil => simp [extended, filter_pair]
    | cons r rs => simp
  | semi =>
    simp only [joinRow, hkind, hms, reduceCtorEq, or_self, or_false, false_and, if_false, if_true,
      append_nil]
    cases ms with
    | nil => rfl
    | cons r rs =>
      simp [firstRow, joinedItem, joined, rightPart, hkind, filter_pair]
  | anti =>
    simp only [joinRow, hkind, hms, or_true, true_and, if_true]
    cases ms with
    | nil => simp [firstRow, extended, filter_pair]
    | cons r rs =>
      have hnone : ∀ x, j.joinedItem l x = [] := by
        intro x
        cases x with
        | row r => simp [joinedItem, joined, hkind]
        | error => rfl
      simp [firstRow, hnone]

/-! ### Moves without errors -/

structure Clean (j : Tdb α β) (g : Track α β) : Prop where
  sent : ∀ s ∈ g.sent, .error ∉ s.rest ∧ (s.rest ≠ [] → j.beforePred s.left = .yes)
  only : ∀ e ∈ g.only, isError e.reply = false
  rest : ∀ is, g.rest = some is → .error ∉ is

/-- What was sent when the requests below `head` were answered, and the rows `cur` for that one. -/
def joinUp (J : ℕ → List (α × Option β)) (head : ℕ) (cur : List (α × Option β)) :
    List (Option (UpEntry α β)) :=
  ((range head).flatMap (fun k => answer k ((J k).map .okMmore))).map some ++
    (cur.map UpStatus.okMmore).map fun s => some ⟨head, s⟩

structure Calm (j : Tdb α β) (right : α → List β) (J : ℕ → List (α × Option β))
    (cur : List (α × Option β)) (v : View α β) : Prop where
  le : v.head ≤ v.phaseOne
  noMore : ∀ k, v.noMore k = false
  up : v.up = joinUp J v.head cur
  owed : ∀ k ∈ v.ids, (if k = v.head then cur else []) ++ j.owing right (v.matched k) (v.track k) = J k
  idle : v.phaseOne ≤ v.head → cur = []
  matched : ∀ k, v.matched k = true → k = v.head ∧ (v.track v.head).sent ≠ []
  clean : ∀ k ∈ v.ids, Clean j (v.track k)

variable {right : α → List β} {J : ℕ → List (α × Option β)} {cur : List (α × Option β)}

variable {ss : List (Sent α β)} {k : ℕ}

lemma Calm.matched_false (h : Calm j right J cur v) (hsent : (v.track k).sent = []) :
    v.matched k = false := by
  rw [Bool.eq_false_iff]
  intro hk
  obtain ⟨rfl, hne⟩ := h.matched k hk
  exact hne hsent

variable {g : Track α β}

lemma Calm.replace (h : Calm j right J cur v) {rows : List (α × Option β)} (hk : k ∈ v.ids)
    (hhead : w.head = v.head) (hone : w.phaseOne = v.phaseOne) (hno : w.noMore = v.noMore)
    (htrack : w.track = update v.track k g)
    (hup : w.up = v.up ++ (rows.map UpStatus.okMmore).map fun s => some ⟨v.head, s⟩)
    (hrows : k ≠ v.head → rows = []) (hoths : ∀ x, x ≠ k → w.matched x = v.matched x)
    (hmat : w.matched k = true → k = v.head ∧ g.sent ≠ []) (hclean : Clean j g)
    (howing : rows ++ j.owing right (w.matched k) g = j.owing right (v.matched k) (v.track k)) :
    Calm j right J (cur ++ rows) w := by
  have hids : w.ids = v.ids := by
    unfold View.ids
    rw [hhead, hone]
  refine ⟨by rw [hhead, hone]; exact h.le, by rw [hno]; exact h.noMore, ?_, fun x hx => ?_,
    fun hidle => ?_, fun x hx => ?_, fun x hx => ?_⟩
  · rw [hup, h.up, hhead, joinUp, joinUp, map_append, map_append, append_assoc]
  · rw [hids] at hx
    have howed := h.owed x hx
    rw [hhead, htrack]
    by_cases hxk : x = k
    · subst hxk
      rw [update_self, ← howed, ← howing]
      split_ifs with hxhead
      · rw [append_assoc]
      · rw [hrows hxhead]
        rfl
    · rw [update_of_ne hxk, hoths x hxk, ← howed]
      split_ifs with hxhead
      · rw [hrows (by rw [← hxhead]; exact Ne.symm hxk), append_nil]
      · rfl
  · rw [View.ids, mem_range'_1] at hk
    omega
  · rw [hhead, htrack]
    by_cases hxk : x = k
    · subst hxk
      obtain ⟨hxhead, hsent⟩ := hmat hx
      refine ⟨hxhead, ?_⟩
      rw [← hxhead, update_self]
      exact hsent
    · rw [hoths x hxk] at hx
      obtain ⟨hxhead, hsent⟩ := h.matched x hx
      refine ⟨hxhead, ?_⟩
      rw [← hxhead] at hsent ⊢
      rw [update_of_ne hxk]
      exact hsent
  · rw [hids] at hx
    rw [htrack]
    by_cases hxk : x = k
    · subst hxk
      rw [update_self]
      exact hclean
    · rw [update_of_ne hxk]
      exact h.clean x hx

lemma Calm.silent (h : Calm j right J cur v) (hk : k ∈ v.ids) (hhead : w.head = v.head)
    (hone : w.phaseOne = v.phaseOne) (hno : w.noMore = v.noMore)
    (htrack : w.track = update v.track k g) (hup : w.up = v.up) (hmat : w.matched = v.matched)
    (hsent : g.sent = [] → (v.track k).sent = []) (hclean : Clean j g)
    (howing : j.owing right (v.matched k) g = j.owing right (v.matched k) (v.track k)) :
    Calm j right J cur w := by
  have hcalm : Calm j right J (cur ++ []) w := by
    refine h.replace hk hhead hone hno htrack ?_ (fun _ => rfl) (fun x _ => by rw [hmat])
      (fun hw => ?_) hclean (by rw [hmat]; exact howing)
    · rw [hup]
      exact (append_nil _).symm
    · rw [hmat] at hw
      obtain ⟨rfl, hne⟩ := h.matched k hw
      exact ⟨rfl, fun hnil => hne (hsent hnil)⟩
  rwa [append_nil] at hcalm

lemma View.First.owing {ss : List (Sent α β)} (h : v.First s ss) (m : Bool) :
    j.owing right m (v.track v.head) = j.owed m s ++ (ss.flatMap (j.owed false) ++
      ((v.track v.head).rest.getD []).flatMap (j.owedItem right)) := by
  rw [Tdb.owing, h.sent, Tdb.owedSent, append_assoc]

lemma Clean.next (h : Clean j g) {x : Item β} (hsent : g.sent = s :: ss)
    (hrest : s.rest = x :: xs) : Clean j { g with sent := { s with rest := xs } :: ss } := by
  have hs := h.sent s (by rw [hsent]; exact mem_cons_self)
  refine ⟨fun s' hs' => ?_, h.only, h.rest⟩
  obtain rfl | hs' := mem_cons.1 hs'
  · refine ⟨fun hmem => hs.1 ?_, fun _ => hs.2 ?_⟩
    · rw [hrest]
      exact mem_cons_of_mem _ hmem
    · rw [hrest]
      exact cons_ne_nil _ _
  · exact h.sent s' (by rw [hsent]; exact mem_cons_of_mem _ hs')

lemma Clean.finished (h : Clean j g) (hsent : g.sent = s :: ss) : Clean j { g with sent := ss } :=
  ⟨fun s' hs' => h.sent s' (by rw [hsent]; exact mem_cons_of_mem _ hs'), h.only, h.rest⟩

lemma Calm.finish (h : Calm j right J cur v) (hfst : v.First s ss) {rows : List (α × Option β)}
    (howed : j.owed (v.matched v.head) s = rows) :
    Calm j right J (cur ++ rows) ((v.finished ss).put (rows.map .okMmore)) := by
  have hself : ((v.finished ss).put (rows.map .okMmore)).matched v.head = false :=
    update_self _ _ _
  refine h.replace (head_mem hfst.lt) rfl rfl rfl rfl rfl (fun hne => (hne rfl).elim)
    (fun x hx => update_of_ne hx _ _) (fun hm => ?_)
    ((h.clean _ (head_mem hfst.lt)).finished hfst.sent) ?_
  · rw [hself] at hm
    cases hm
  · rw [hself, hfst.owing, howed, owing, owedSent_false]

variable {left : ℕ → List α}

lemma Calm.sendLeft (h : Calm j right (fun k => j.join right (left k)) cur v) (n : ℕ) :
    Calm j right (fun k => j.join right (left k)) cur
      { v.setTrack v.phaseOne (.new ((left v.phaseOne).map .row) false) with
        phaseOne := v.phaseOne + 1
        matched := update v.matched v.phaseOne false
        due := n } := by
  have hle := h.le
  have hmem : ∀ x, x ∈ range' v.head (v.phaseOne + 1 - v.head) → x = v.phaseOne ∨
      x ≠ v.phaseOne ∧ x ∈ v.ids := by
    intro x hx
    rw [View.ids, mem_range'_1]
    rw [mem_range'_1] at hx
    omega
  refine ⟨hle.trans (Nat.le_succ _), h.noMore, h.up, fun x hx => ?_,
    fun hidle => h.idle ((Nat.le_succ _).trans hidle), fun x hx => ?_, fun x hx => ?_⟩
  · simp only [setTrack]
    obtain rfl | ⟨hne, hx⟩ := hmem x hx
    · rw [update_self, update_self]
      have hcur : (if v.phaseOne = v.head then cur else []) = [] := by
        split_ifs with heq
        · exact h.idle heq.le
        · rfl
      refine (congrArg (· ++ _) hcur).trans ?_
      simp [owing, owedSent, Track.new, owedItem, flatMap_map, join]
    · rw [update_of_ne hne, update_of_ne hne]
      exact h.owed x hx
  · simp only [setTrack] at hx ⊢
    by_cases hne : x = v.phaseOne
    · subst hne
      rw [update_self] at hx
      cases hx
    · rw [update_of_ne hne] at hx
      obtain ⟨rfl, hsent⟩ := h.matched x hx
      rw [update_of_ne hne]
      exact ⟨rfl, hsent⟩
  · simp only [setTrack]
    obtain rfl | ⟨hne, hx⟩ := hmem x hx
    · rw [update_self]
      refine ⟨fun s hs => absurd hs not_mem_nil, fun e he => absurd he not_mem_nil,
        fun is his => ?_⟩
      obtain rfl := Option.some.inj his
      simp
    · rw [update_of_ne hne]
      exact h.clean x hx

lemma error_notMem_rightItems (left : ℕ → List α) (n : ℕ) (l : α) :
    .error ∉ rightItems j (rowsOnly left right) n l := by
  unfold rightItems rowsOnly
  split_ifs
  · dsimp only
    cases right l with
    | nil => exact not_mem_nil
    | cons r rs => simp [firstRow]
  · simp
  · simp

lemma Calm.sendRight (h : Calm j right J cur v) {k index n m : ℕ} {l : α}
    {is : List (Item α)} (hk : k ∈ v.ids) (hrest : (v.track k).rest = some (.row l :: is)) :
    Calm j right J cur { v.setTrack k ((v.track k).send
          ⟨index, l, rightItems j (rowsOnly left right) n l⟩ is) with due := m } := by
  have hclean := h.clean k hk
  refine h.silent hk rfl rfl rfl rfl rfl rfl (fun hnil => ?_)
    ⟨forall_mem_append.2 ⟨hclean.sent, forall_mem_singleton.2 ?_⟩, hclean.only, fun js hjs => ?_⟩ ?_
  · exact (append_ne_nil_of_right_ne_nil _ (cons_ne_nil _ _) hnil).elim
  · refine ⟨error_notMem_rightItems left n l, fun hne => ?_⟩
    by_contra hbef
    exact hne (by rw [rightItems, if_neg hbef])
  · obtain rfl := Option.some.inj hjs
    exact fun hmem => hclean.rest _ hrest (mem_cons_of_mem _ hmem)
  · rw [owing, owing, hrest, Track.send]
    dsimp only
    rw [owedSent_append h.matched_false, flatMap_singleton, owed_new, Option.getD_some,
      Option.getD_some, flatMap_cons, append_assoc]
    rfl

lemma put_nil (v : View α β) : v.put [] = v := by
  simp [put]

lemma Calm.endRequest (h : Calm j right J cur v) (hlt : v.head < v.phaseOne)
    (hsent : (v.track v.head).sent = []) (hrest : (v.track v.head).rest = none) :
    Calm j right J [] { v.put [.noData] with head := v.head + 1 } := by
  have hids : v.ids = v.head :: range' (v.head + 1) (v.phaseOne - (v.head + 1)) := by
    rw [View.ids, show v.phaseOne - v.head = (v.phaseOne - (v.head + 1)) + 1 by omega, range'_succ]
  have hmem : ∀ x, x ∈ range' (v.head + 1) (v.phaseOne - (v.head + 1)) → x ∈ v.ids ∧ x ≠ v.head := by
    intro x hx
    rw [hids]
    refine ⟨mem_cons_of_mem _ hx, ?_⟩
    rw [mem_range'_1] at hx
    omega
  have hcur : cur = J v.head := by
    have howed := h.owed v.head (head_mem hlt)
    rw [if_pos rfl, owing, hsent, hrest] at howed
    rw [← howed]
    exact (append_nil cur).symm
  have hmat : ∀ k, v.matched k = false := by
    intro k
    rw [Bool.eq_false_iff]
    intro hk
    exact (h.matched k hk).2 hsent
  refine ⟨hlt, h.noMore, ?_, fun x hx => ?_, fun _ => rfl, fun x hx => ?_,
    fun x hx => h.clean x (hmem x hx).1⟩
  · simp only [put]
    rw [h.up, hcur, joinUp, joinUp, range_succ, flatMap_append, flatMap_singleton,
      answer, map_append, map_append, map_map]
    simp
  · have howed := h.owed x (hmem x hx).1
    rw [if_neg (hmem x hx).2] at howed
    split_ifs <;> exact howed
  · rw [show ({ v.put [.noData] with head := v.head + 1 } : View α β).matched = v.matched from rfl,
      hmat] at hx
    cases hx

lemma Calm.move (hj : j.Total) (h : Calm j right (fun k => j.join right (left k)) cur v)
    (hmove : Move j (rowsOnly left right) v w) :
    ∃ cur', Calm j right (fun k => j.join right (left k)) cur' w := by
  have hwanted : ∀ k, ¬v.noMore k = true := fun k => Bool.eq_false_iff.1 (h.noMore k)
  cases hmove with
  | sendLeft n hlt =>
    rw [h.noMore]
    exact ⟨cur, h.sendLeft n⟩
  | keepLeft hk hrest hwhy =>
    obtain hno | rfl := hwhy
    · exact (hwanted _ hno).elim
    · exact ((h.clean _ hk).rest _ hrest mem_cons_self).elim
  | sendRight m hk hrest hno => exact ⟨cur, h.sendRight hk hrest⟩
  | endLeft hk hrest hrep =>
    have hclean := h.clean _ hk
    refine ⟨cur, h.silent hk rfl rfl rfl rfl rfl rfl id ⟨hclean.sent, ?_,
      fun is his => by cases his⟩ ?_⟩
    · exact forall_mem_append.2 ⟨hclean.only, forall_mem_singleton.2 (by rw [hrep]; rfl)⟩
    · rw [Tdb.owing, Tdb.owing, hrest]
      rfl
  | skipItem hfst hrest hwhy =>
    have hclean := (h.clean _ (head_mem hfst.lt)).sent _ (by rw [hfst.sent]; exact mem_cons_self)
    obtain hno | hno := hwhy
    · exact (hwanted _ hno).elim
    · rw [hclean.2 (by rw [hrest]; exact cons_ne_nil _ _)] at hno
      cases hno
  | childError hfst hrest =>
    have hclean := (h.clean _ (head_mem hfst.lt)).sent _ (by rw [hfst.sent]; exact mem_cons_self)
    exact (hclean.1 (by rw [hrest]; exact mem_cons_self)).elim
  | joinRow hfst hrest hbef =>
    have hmem := head_mem hfst.lt
    refine ⟨_, h.replace hmem rfl rfl rfl rfl rfl (fun hne => (hne rfl).elim)
      (fun x hx => update_of_ne hx _ _) (fun _ => ⟨rfl, cons_ne_nil _ _⟩)
      ((h.clean _ hmem).next hfst.sent hrest) ?_⟩
    rw [show (((v.next _ _ _).setMatched.put _).matched v.head) = true from
      update_self _ _ _, hfst.owing, owed_item hrest, Tdb.owing, Tdb.owedSent]
    simp only [append_assoc]
  | evalError hfst hrest hfail =>
    obtain hfail | ⟨f, hf, hfail⟩ := hfail
    · exact (hj.after _ _ hfail).elim
    · exact (hj.lj f hf _ _ hfail).elim
  | @endRight s ss hfst hrest hext =>
    refine ⟨cur ++ [], ?_⟩
    have howed : j.owed (v.matched v.head) s = [] := by
      rw [Tdb.owed, hrest, if_neg fun hcond => hext ⟨hcond.1, hcond.2.1, h.noMore _⟩]
      rfl
    exact put_nil (v.finished ss) ▸ h.finish hfst howed
  | nullExtend hfst hrest hext =>
    refine ⟨_, h.finish hfst ?_⟩
    rw [Tdb.owed, hrest, if_pos ⟨hext.1, hext.2.1, rfl⟩]
    rfl
  | dropLeft hlt hsent honly =>
    have hmem := head_mem hlt
    have hclean := h.clean _ hmem
    have hnone := hclean.only _ (by rw [honly]; exact mem_cons_self)
    rw [errorOf, if_neg (Bool.eq_false_iff.1 hnone), put_nil]
    refine ⟨cur, h.silent hmem rfl rfl rfl rfl rfl rfl id ⟨hclean.sent, fun e he => ?_, hclean.rest⟩ rfl⟩
    exact hclean.only e (by rw [honly]; exact mem_cons_of_mem _ he)
  | endRequest hlt hsent honly hrest => exact ⟨[], h.endRequest hlt hsent hrest⟩
  | arrive hn => exact ⟨cur, h.le, h.noMore, h.up, h.owed, h.idle, h.matched, h.clean⟩
  | cutLeft hk hn hno hrest =>
    obtain ⟨x, hx⟩ := hno
    exact (hwanted x hx).elim
  | cutRight hk hn hno hsent hrest =>
    obtain ⟨x, hx⟩ := hno
    exact (hwanted x hx).elim

lemma Calm.quiet (h : Calm j right J cur v) (hquiet : Quiet j v w) : Calm j right J cur w := by
  cases hquiet with
  | setMatched hfst hrest =>
    have hmem := head_mem hfst.lt
    have hcalm : Calm j right J (cur ++ []) v.setMatched := by
      refine h.replace hmem rfl rfl rfl (update_eq_self _ _).symm (append_nil _).symm
        (fun _ => rfl) (fun x hx => update_of_ne hx _ _) (fun _ => ⟨rfl, ?_⟩)
        (h.clean _ hmem) ?_
      · exact hfst.sent ▸ cons_ne_nil _ _
      · have htrue : v.setMatched.matched v.head = true := update_self _ _ _
        rw [htrue, nil_append]
        refine (hfst.owing true).trans ?_
        rw [hfst.owing, owed_item hrest, owed_item hrest]
    rwa [append_nil] at hcalm

section Runs

variable {left : ℕ → List α}

lemma Calm.moves (hj : j.Total) (h : Calm j right (fun k => j.join right (left k)) cur v)
    (hmov : Moves j (rowsOnly left right) v w) :
    ∃ cur', Calm j right (fun k => j.join right (left k)) cur' w := by
  induction hmov with
  | refl => exact ⟨cur, h⟩
  | tail _ hstep ih =>
    obtain ⟨cur', h'⟩ := ih
    obtain hmove | hquiet := hstep
    · exact h'.move hj hmove
    · exact ⟨cur', h'.quiet hquiet⟩

def Joining (j : Tdb α β) (left : ℕ → List α) (right : α → List β) (t : Tcb α β) : Prop :=
  ∃ G cur, Good G t ∧ Calm j right (fun k => j.join right (left k)) cur (t.view G)

lemma Joining.step {t : Tcb α β} (hj : j.Total) (h : Joining j left right t) (size : Sizes)
    {e : Event} (he : ∀ k, e ≠ .parentCancels k) :
    Joining j left right (NestedJoin.step j (rowsOnly left right) size t e) := by
  obtain ⟨G, cur, hgood, hcalm⟩ := h
  obtain ⟨G', hgood', heff⟩ := hgood.step (c := rowsOnly left right) hj.reports size e
  cases e with
  | parentSends =>
    obtain heq | heq := heff
    · exact ⟨G', cur, hgood', heq ▸ hcalm⟩
    · exact ⟨G', cur, hgood', heq ▸ { hcalm with }⟩
  | parentCancels k => exact (he k rfl).elim
  | _ =>
    obtain ⟨cur', hcalm'⟩ := hcalm.moves hj heff
    exact ⟨G', cur', hgood', hcalm'⟩

lemma Joining.run {t : Tcb α β} (hj : j.Total) (h : Joining j left right t) (size : Sizes)
    {l : List Event} (hl : ∀ e ∈ l, ∀ k, e ≠ .parentCancels k) :
    Joining j left right (run (NestedJoin.step j (rowsOnly left right) size) t l) := by
  induction l generalizing t with
  | nil => exact h
  | cons e l ih =>
    exact ih (h.step hj size (hl e mem_cons_self)) (forall_mem_cons.1 hl).2

lemma Joining.initial (size : Sizes) : Joining j left right (initial size) :=
  ⟨_, [], Good.initial size, le_rfl, fun _ => rfl, rfl, fun _ hk => absurd hk not_mem_nil,
    fun _ => rfl, fun _ hk => absurd hk Bool.false_ne_true, fun _ hk => absurd hk not_mem_nil⟩

end Runs

/-- **Nested join.** In every run without errors and cancelled requests no assertion fails and what
was sent is, for each request that was ended, the rows of the join in left-major order and one end of
data, and then a beginning of the join for the request at the head; and in every state reached, some
number of rounds answers all requests. -/
theorem nested_join_joins (j : Tdb α β) (hbefore : ∀ l, j.beforePred l ≠ .error)
    (hlj : ∀ f, j.ljExpr = some f → ∀ l r, f l r ≠ .error) (hafter : ∀ l r, j.afterPred l r ≠ .error)
    (left : ℕ → List α) (right : α → List β) (size : Sizes) (hsize : size.Positive) (l : List Event)
    (hl : ∀ e ∈ l, ∀ k, e ≠ .parentCancels k) :
    let t := run (step j (rowsOnly left right) size) (initial size) l
    t.fault = false ∧
    (∃ cur, cur <+: j.join right (left t.head) ∧
      t.up = joinUp (fun k => j.join right (left k)) t.head cur) ∧
    ∃ n, (run (step j (rowsOnly left right) size) t (rounds n)).up =
      ((range t.tail).flatMap fun k =>
        answer k ((j.join right (left k)).map .okMmore)).map some := by
  intro t
  have hj : j.Total := ⟨hbefore, hlj, hafter⟩
  obtain ⟨G, cur, hgood, hcalm⟩ : Joining j left right t := (Joining.initial size).run hj size hl
  refine ⟨hgood.noFault, ⟨cur, ?_, hcalm.up⟩, ?_⟩
  · obtain hlt | hle := Nat.lt_or_ge t.head t.phaseOne
    · have howed := hcalm.owed t.head (head_mem (v := t.view G) hlt)
      refine ⟨j.owing right ((t.view G).matched t.head) ((t.view G).track t.head), ?_⟩
      rw [← howed]
      exact congrArg (· ++ _) (if_pos rfl).symm
    · rw [hcalm.idle hle]
      exact nil_prefix
  · obtain ⟨n, G', hgood', hmoves, hhead⟩ :=
      hgood.rounds (c := rowsOnly left right) hj.reports hsize
    obtain ⟨cur', hcalm'⟩ := hcalm.moves hj hmoves
    have htail : (run (step j (rowsOnly left right) size) t (rounds n)).tail = t.tail :=
      hmoves.tail_eq
    have hup : (run (step j (rowsOnly left right) size) t (rounds n)).up =
        joinUp (fun k => j.join right (left k))
          (run (step j (rowsOnly left right) size) t (rounds n)).head cur' := hcalm'.up
    have hcur : cur' = [] := hcalm'.idle (by
      have hle := hgood'.aligned.phaseOne_le
      rw [htail, ← hhead] at hle
      exact hle)
    refine ⟨n, ?_⟩
    rw [hup, hcur, hhead, joinUp, map_nil, map_nil, append_nil]

def antiJoin : Tdb ℕ ℕ where
  kind := .anti
  beforePred := fun l => if l % 2 = 0 then .yes else .no
  ljExpr := none
  afterPred := fun _ _ => .yes

/-- Two requests; the second returns the left rows of the first and one more. -/
theorem antiJoin_answered :
    ∃ n, (run (step antiJoin (rowsOnly (fun k => [1, 2, 4].take (k + 2)) fun l => [l].filter (· = 2))
          ⟨2, 2, 1, 1⟩)
        (run (step antiJoin (rowsOnly (fun k => [1, 2, 4].take (k + 2)) fun l => [l].filter (· = 2))
          ⟨2, 2, 1, 1⟩) (initial ⟨2, 2, 1, 1⟩) [.parentSends, .workPhase1, .parentSends]) (rounds n)).up =
      [some ⟨0, .okMmore (1, none)⟩, some ⟨0, .noData⟩, some ⟨1, .okMmore (1, none)⟩,
        some ⟨1, .okMmore (4, none)⟩, some ⟨1, .noData⟩] :=
  (nested_join_joins antiJoin (fun l => by unfold antiJoin; dsimp only; split_ifs <;> simp)
    (fun f hf => by cases hf) (fun _ _ => by simp [antiJoin]) (fun k => [1, 2, 4].take (k + 2))
    (fun l => [l].filter (· = 2)) ⟨2, 2, 1, 1⟩ ⟨by simp, by simp, by simp⟩
    [.parentSends, .workPhase1, .parentSends] (by simp)).2.2

end Trafodion.NestedJoin
