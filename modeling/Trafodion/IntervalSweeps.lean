import Mathlib.Order.Lattice
import Mathlib.Data.List.Basic
import Mathlib.Data.List.Pairwise

/-!
# Sweeps over two interval lists

The endpoints of two lists of intervals are merged into one ascending list, and a sweep over it
keeps track of the interval that is open in each of the lists. At a position, what is open after
the last endpoint up to it are the intervals of the two lists that contain it. Intervals are half
open: they begin at a position and end before another one.
-/
namespace IntervalSweeps

open List

variable {E C D : Type*} [LinearOrder C]

/-- How endpoints are read: their positions, whether they open or close, and the intervals of the
left and of the right list that they belong to. -/
structure Reading (E C D : Type*) where
  cut : E → C
  opens : E → Bool
  left : E → Option D
  right : E → Option D

/-- The reading with the lists exchanged. -/
def Reading.swap (R : Reading E C D) : Reading E C D := ⟨R.cut, R.opens, R.right, R.left⟩

/-- Endpoints in ascending order. -/
def Ascending (R : Reading E C D) (es : List E) : Prop := es.Pairwise fun e e' => R.cut e ≤ R.cut e'

/-- An endpoint that stands for one of each list. -/
structure Joins (R : Reading E C D) (x y z : E) : Prop where
  cut_left : R.cut z = R.cut x
  cut_right : R.cut z = R.cut y
  opens_left : R.opens z = R.opens x
  opens_right : R.opens z = R.opens y
  left : R.left z = R.left x
  right : R.right z = R.right y

/-- The endpoints of the left and of the right list, merged in ascending order. -/
inductive Merged (R : Reading E C D) : List E → List E → List E → Prop
  | nil_left (ys : List E) : Merged R [] ys ys
  | nil_right (xs : List E) : Merged R xs [] xs
  | lt {x y : E} {xs ys zs : List E} : R.cut x ≤ R.cut y → Merged R xs (y :: ys) zs →
      Merged R (x :: xs) (y :: ys) (x :: zs)
  | gt {x y : E} {xs ys zs : List E} : R.cut y ≤ R.cut x → Merged R (x :: xs) ys zs →
      Merged R (x :: xs) (y :: ys) (y :: zs)
  | eq {x y z : E} {xs ys zs : List E} : Joins R x y z → Merged R xs ys zs →
      Merged R (x :: xs) (y :: ys) (z :: zs)

variable {R : Reading E C D} {xs ys zs es : List E} {p : C} {e : E} {s t : Option D}

section
variable (h : Merged R xs ys zs)
include h

lemma Merged.swap : Merged R.swap ys xs zs := by
  induction h with
  | nil_left ys => exact .nil_right ys
  | nil_right xs => exact .nil_left xs
  | lt hle _ ih => exact .gt hle ih
  | gt hle _ ih => exact .lt hle ih
  | eq hz _ ih =>
    exact .eq ⟨hz.cut_right, hz.cut_left, hz.opens_right, hz.opens_left, hz.right, hz.left⟩ ih

lemma Merged.exists_cut_eq {z : E} (hz : z ∈ zs) :
    (∃ x ∈ xs, R.cut z = R.cut x) ∨ ∃ y ∈ ys, R.cut z = R.cut y := by
  induction h with
  | nil_left ys => exact .inr ⟨z, hz, rfl⟩
  | nil_right xs => exact .inl ⟨z, hz, rfl⟩
  | @lt x y xs ys zs _ _ ih =>
    rcases mem_cons.1 hz with rfl | hz
    · exact .inl ⟨z, mem_cons_self, rfl⟩
    · exact (ih hz).imp_left fun ⟨w, hw, hcut⟩ => ⟨w, mem_cons_of_mem x hw, hcut⟩
  | @gt x y xs ys zs _ _ ih =>
    rcases mem_cons.1 hz with rfl | hz
    · exact .inr ⟨z, mem_cons_self, rfl⟩
    · exact (ih hz).imp_right fun ⟨w, hw, hcut⟩ => ⟨w, mem_cons_of_mem y hw, hcut⟩
  | @eq x y z' xs ys zs hjoin _ ih =>
    rcases mem_cons.1 hz with rfl | hz
    · exact .inl ⟨x, mem_cons_self, hjoin.cut_left⟩
    · exact (ih hz).imp (fun ⟨w, hw, hcut⟩ => ⟨w, mem_cons_of_mem x hw, hcut⟩)
        fun ⟨w, hw, hcut⟩ => ⟨w, mem_cons_of_mem y hw, hcut⟩

lemma Merged.left_or_right (hxs : ∀ x ∈ xs, R.left x ≠ none)
    (hys : ∀ y ∈ ys, R.right y ≠ none) : ∀ z ∈ zs, R.left z ≠ none ∨ R.right z ≠ none := by
  induction h with
  | nil_left ys => exact fun z hz => .inr (hys z hz)
  | nil_right xs => exact fun z hz => .inl (hxs z hz)
  | lt _ _ ih =>
    obtain ⟨hx, hxs⟩ := forall_mem_cons.1 hxs
    exact forall_mem_cons.2 ⟨.inl hx, ih hxs hys⟩
  | gt _ _ ih =>
    obtain ⟨hy, hys⟩ := forall_mem_cons.1 hys
    exact forall_mem_cons.2 ⟨.inr hy, ih hxs hys⟩
  | eq hz _ ih =>
    obtain ⟨hx, hxs⟩ := forall_mem_cons.1 hxs
    exact forall_mem_cons.2 ⟨.inl (hz.left ▸ hx), ih hxs (forall_mem_cons.1 hys).2⟩

lemma Merged.forall_le {c : C} (hxs : ∀ x ∈ xs, c ≤ R.cut x)
    (hys : ∀ y ∈ ys, c ≤ R.cut y) : ∀ z ∈ zs, c ≤ R.cut z := by
  intro z hz
  rcases h.exists_cut_eq hz with ⟨x, hx, heq⟩ | ⟨y, hy, heq⟩
  · exact heq ▸ hxs x hx
  · exact heq ▸ hys y hy

lemma Merged.ascending (hxs : Ascending R xs) (hys : Ascending R ys) : Ascending R zs := by
  induction h with
  | nil_left ys => exact hys
  | nil_right xs => exact hxs
  | @lt x y xs ys zs hle hmgd ih =>
    obtain ⟨hx, hxs⟩ := pairwise_cons.1 hxs
    refine pairwise_cons.2 ⟨hmgd.forall_le hx (forall_mem_cons.2 ⟨hle, fun y' hy' => ?_⟩), ih hxs hys⟩
    exact hle.trans ((pairwise_cons.1 hys).1 y' hy')
  | @gt x y xs ys zs hle hmgd ih =>
    obtain ⟨hy, hys⟩ := pairwise_cons.1 hys
    refine pairwise_cons.2 ⟨hmgd.forall_le (forall_mem_cons.2 ⟨hle, fun x' hx' => ?_⟩) hy, ih hxs hys⟩
    exact hle.trans ((pairwise_cons.1 hxs).1 x' hx')
  | @eq x y z xs ys zs hz hmgd ih =>
    obtain ⟨hx, hxs⟩ := pairwise_cons.1 hxs
    obtain ⟨hy, hys⟩ := pairwise_cons.1 hys
    refine pairwise_cons.2 ⟨hmgd.forall_le (fun x' hx' => ?_) fun y' hy' => ?_, ih hxs hys⟩
    · exact hz.cut_left ▸ hx x' hx'
    · exact hz.cut_right ▸ hy y' hy'

end

/-! ### What is open -/

/-- The interval of the left list that is open after an endpoint. -/
def adjust (R : Reading E C D) (e : E) (s : Option D) : Option D :=
  match R.left e with
  | none => s
  | some d => if R.opens e then some d else none

omit [LinearOrder C] in
lemma adjust_of_none (h : R.left e = none) (s : Option D) : adjust R e s = s := by
  rw [adjust, h]

/-- The interval of the left list that is open after the endpoints up to `p`. -/
def stateAt (R : Reading E C D) (p : C) : Option D → List E → Option D
  | s, [] => s
  | s, e :: es => if R.cut e ≤ p then stateAt R p (adjust R e s) es else s

lemma stateAt_cons_of_le (h : R.cut e ≤ p) (s : Option D) (es : List E) :
    stateAt R p s (e :: es) = stateAt R p (adjust R e s) es := if_pos h

lemma stateAt_cons_of_not_le (h : ¬ R.cut e ≤ p) (s : Option D) (es : List E) :
    stateAt R p s (e :: es) = s := if_neg h

lemma stateAt_of_lt (h : ∀ e ∈ es, p < R.cut e) (s : Option D) : stateAt R p s es = s := by
  cases es with
  | nil => rfl
  | cons e es => rw [stateAt, if_neg (h e mem_cons_self).not_ge]

lemma stateAt_of_none (h : ∀ e ∈ es, R.left e = none) (s : Option D) : stateAt R p s es = s := by
  induction es with
  | nil => rfl
  | cons e es ih =>
    obtain ⟨he, hes⟩ := forall_mem_cons.1 h
    rw [stateAt, adjust_of_none he, ih hes, ite_self]

lemma Merged.stateAt_left (h : Merged R xs ys zs) (hys : ∀ y ∈ ys, R.left y = none)
    (s : Option D) : stateAt R p s zs = stateAt R p s xs := by
  induction h generalizing s with
  | nil_left ys => exact stateAt_of_none hys s
  | nil_right xs => rfl
  | lt _ _ ih => rw [stateAt, stateAt, ih hys]
  | @gt x y xs ys zs hle _ ih =>
    obtain ⟨hy, hys⟩ := forall_mem_cons.1 hys
    rw [stateAt, adjust_of_none hy, ih hys, stateAt]
    split_ifs with hyp hxp hxp
    · rfl
    · rfl
    · exact (hyp (hle.trans hxp)).elim
    · rfl
  | @eq x y z xs ys zs hz _ ih =>
    have hadjust : adjust R z s = adjust R x s := by rw [adjust, adjust, hz.left, hz.opens_left]
    rw [stateAt, stateAt, hz.cut_left, hadjust, ih (forall_mem_cons.1 hys).2]

/-- An endpoint opens an interval when none is open, or closes the one that is. -/
def Alternates (R : Reading E C D) : Option D → List E → Prop
  | s, [] => s = none
  | s, e :: es => (∀ d ∈ R.left e, s = if R.opens e then none else some d) ∧
      Alternates R (adjust R e s) es

omit [LinearOrder C] in
lemma alternates_of_none (h : ∀ e ∈ es, R.left e = none) : Alternates R none es := by
  induction es with
  | nil => rfl
  | cons e es ih =>
    obtain ⟨he, hes⟩ := forall_mem_cons.1 h
    rw [Alternates, adjust_of_none he, he]
    exact ⟨nofun, ih hes⟩

lemma Merged.alternates_left (h : Merged R xs ys zs) (hys : ∀ y ∈ ys, R.left y = none)
    {s : Option D} (hxs : Alternates R s xs) : Alternates R s zs := by
  induction h generalizing s with
  | nil_left ys =>
    obtain rfl : s = none := hxs
    exact alternates_of_none hys
  | nil_right xs => exact hxs
  | lt _ _ ih => exact ⟨hxs.1, ih hys hxs.2⟩
  | gt _ _ ih =>
    obtain ⟨hy, hys⟩ := forall_mem_cons.1 hys
    rw [Alternates, adjust_of_none hy, hy]
    exact ⟨nofun, ih hys hxs⟩
  | @eq x y z xs ys zs hz _ ih =>
    have hadjust : adjust R z s = adjust R x s := by rw [adjust, adjust, hz.left, hz.opens_left]
    rw [Alternates, hadjust, hz.left, hz.opens_left]
    exact ⟨hxs.1, ih (forall_mem_cons.1 hys).2 hxs.2⟩

lemma Alternates.exists_lt (h : Alternates R s es) (hopen : stateAt R p s es ≠ none) :
    ∃ e ∈ es, p < R.cut e := by
  induction es generalizing s with
  | nil => exact (hopen h).elim
  | cons e es ih =>
    rw [stateAt] at hopen
    split_ifs at hopen with hle
    · obtain ⟨e', he', hlt⟩ := ih h.2 hopen
      exact ⟨e', mem_cons_of_mem e he', hlt⟩
    · exact ⟨e, mem_cons_self, not_le.1 hle⟩

/-! ### The endpoints of one list -/

section lists
variable {lo hi : D → C} {opening closing : D → E} {l : List D}

/-- The endpoints of a list of intervals. -/
def endPoints (opening closing : D → E) (l : List D) : List E :=
  l.flatMap fun d => [opening d, closing d]

/-- Intervals that begin before they end, one after the other. -/
structure Separated (lo hi : D → C) (l : List D) : Prop where
  le : ∀ d ∈ l, lo d ≤ hi d
  pairwise : l.Pairwise fun d d' => hi d ≤ lo d'

lemma Separated.of_cons {d : D} (h : Separated lo hi (d :: l)) : Separated lo hi l :=
  ⟨(forall_mem_cons.1 h.le).2, (pairwise_cons.1 h.pairwise).2⟩

/-- The endpoints of intervals of the left list. -/
structure Ends (R : Reading E C D) (lo hi : D → C) (opening closing : D → E) : Prop where
  cut_opening : ∀ d, R.cut (opening d) = lo d
  cut_closing : ∀ d, R.cut (closing d) = hi d
  opens_opening : ∀ d, R.opens (opening d) = true
  opens_closing : ∀ d, R.opens (closing d) = false
  left_opening : ∀ d, R.left (opening d) = some d
  left_closing : ∀ d, R.left (closing d) = some d

lemma mem_endPoints : e ∈ endPoints opening closing l ↔
    ∃ d ∈ l, e = opening d ∨ e = closing d := by
  simp [endPoints]

lemma Separated.forall_le (h : Separated lo hi l) (hR : Ends R lo hi opening closing) {c : C}
    (hc : ∀ d ∈ l, c ≤ lo d) : ∀ e ∈ endPoints opening closing l, c ≤ R.cut e := by
  intro e he
  obtain ⟨d, hd, rfl | rfl⟩ := mem_endPoints.1 he
  · exact hR.cut_opening d ▸ hc d hd
  · exact hR.cut_closing d ▸ (hc d hd).trans (h.le d hd)

lemma Separated.ascending (h : Separated lo hi l) (hR : Ends R lo hi opening closing) :
    Ascending R (endPoints opening closing l) := by
  induction l with
  | nil => exact List.Pairwise.nil
  | cons d l ih =>
    have hle := h.le d mem_cons_self
    have hlat := h.of_cons.forall_le hR (pairwise_cons.1 h.pairwise).1
    rw [endPoints, flatMap_cons]
    refine pairwise_cons.2 ⟨fun e he => ?_, pairwise_cons.2 ⟨fun e he => ?_, ih h.of_cons⟩⟩
    · rw [hR.cut_opening]
      rcases mem_cons.1 he with rfl | he
      · rwa [hR.cut_closing]
      · exact hle.trans (hlat e he)
    · rw [hR.cut_closing]
      exact hlat e he

section

omit [LinearOrder C]

section
variable (hR : Ends R lo hi opening closing)
include hR

lemma Ends.adjust_opening (d : D) (s : Option D) : adjust R (opening d) s = some d := by
  rw [adjust, hR.left_opening, hR.opens_opening]
  rfl

lemma Ends.adjust_closing (d : D) (s : Option D) : adjust R (closing d) s = none := by
  rw [adjust, hR.left_closing, hR.opens_closing]
  rfl

lemma Ends.alternates (l : List D) : Alternates R none (endPoints opening closing l) := by
  induction l with
  | nil => rfl
  | cons d l ih =>
    refine ⟨fun d' _ => ?_, ?_⟩
    · rw [hR.opens_opening]
      rfl
    · rw [hR.adjust_opening]
      refine ⟨fun d' hd' => ?_, ?_⟩
      · rw [hR.left_closing] at hd'
        rw [hR.opens_closing, Option.some.inj hd']
        rfl
      · rw [hR.adjust_closing]
        exact ih

end

end

lemma Separated.stateAt_eq_some_iff (h : Separated lo hi l) (hR : Ends R lo hi opening closing)
    {d : D} : stateAt R p none (endPoints opening closing l) = some d ↔
      d ∈ l ∧ lo d ≤ p ∧ p < hi d := by
  induction l with
  | nil => simp [endPoints, stateAt]
  | cons d' l ih =>
    have hlat := (pairwise_cons.1 h.pairwise).1
    rw [endPoints, flatMap_cons, cons_append, cons_append, nil_append, stateAt,
      hR.adjust_opening, stateAt, hR.adjust_closing, hR.cut_opening, hR.cut_closing]
    split_ifs with hlo hhi
    · rw [show stateAt R p none (l.flatMap fun d => [opening d, closing d]) = some d ↔ _ from
        ih h.of_cons, mem_cons]
      refine and_congr_left fun hd => (or_iff_right ?_).symm
      rintro rfl
      exact hd.2.not_ge hhi
    · constructor
      · rintro ⟨⟩
        exact ⟨mem_cons_self, hlo, not_le.1 hhi⟩
      · rintro ⟨hmem, hd, -⟩
        rcases mem_cons.1 hmem with rfl | hmem
        · rfl
        · exact (hhi ((hlat d hmem).trans hd)).elim
    · refine iff_of_false nofun ?_
      rintro ⟨hmem, hd, -⟩
      rcases mem_cons.1 hmem with rfl | hmem
      · exact hlo hd
      · exact hlo ((h.le d' mem_cons_self).trans ((hlat d hmem).trans hd))

end lists

/-! ### The pieces between the endpoints -/

/-- A piece between two endpoints, with the intervals that are open there. -/
structure Piece (E D : Type*) where
  first : E
  last : E
  left : Option D
  right : Option D

/-- The pieces from `e` on, with what is open after it. -/
def pieces (R : Reading E C D) : Option D → Option D → E → List E → List (Piece E D)
  | _, _, _, [] => []
  | s, t, e, e' :: es => ⟨e, e', s, t⟩ :: pieces R (adjust R e' s) (adjust R.swap e' t) e' es

variable {x : Piece E D}

section

omit [LinearOrder C]

lemma rel_of_mem_pieces {r : E → E → Prop} (h : (e :: es).Pairwise r)
    (hx : x ∈ pieces R s t e es) : r x.first x.last := by
  induction es generalizing s t e with
  | nil => cases hx
  | cons e' es ih =>
    obtain ⟨he, hes⟩ := pairwise_cons.1 h
    rcases mem_cons.1 hx with rfl | hx
    · exact he e' mem_cons_self
    · exact ih hes hx

lemma mem_of_mem_pieces (hx : x ∈ pieces R s t e es) : x.first ∈ e :: es ∧ x.last ∈ es := by
  induction es generalizing s t e with
  | nil => cases hx
  | cons e' es ih =>
    rcases mem_cons.1 hx with rfl | hx
    · exact ⟨mem_cons_self, mem_cons_self⟩
    · exact (ih hx).imp (mem_cons_of_mem e) (mem_cons_of_mem e')

end

lemma le_of_mem_pieces (h : Ascending R (e :: es)) (hx : x ∈ pieces R s t e es) :
    R.cut e ≤ R.cut x.first := by
  rcases mem_cons.1 (mem_of_mem_pieces hx).1 with hfst | hfst
  · rw [hfst]
  · exact (pairwise_cons.1 h).1 _ hfst

lemma pairwise_pieces (h : Ascending R (e :: es)) :
    (pieces R s t e es).Pairwise fun x y => R.cut x.last ≤ R.cut y.first := by
  induction es generalizing s t e with
  | nil => exact List.Pairwise.nil
  | cons e' es ih =>
    have hes := (pairwise_cons.1 h).2
    exact pairwise_cons.2 ⟨fun y hy => le_of_mem_pieces hes hy, ih hes⟩

lemma open_of_mem_pieces (h : Ascending R (e :: es)) (hx : x ∈ pieces R s t e es)
    (hfst : R.cut x.first ≤ p) (hlast : p < R.cut x.last) :
    x.left = stateAt R p s es ∧ x.right = stateAt R.swap p t es := by
  induction es generalizing s t e with
  | nil => cases hx
  | cons e' es ih =>
    have hes := (pairwise_cons.1 h).2
    rcases mem_cons.1 hx with rfl | hx
    · have hnot : ¬ R.cut e' ≤ p := hlast.not_ge
      exact ⟨(if_neg hnot).symm, (if_neg hnot).symm⟩
    · have hle : R.cut e' ≤ p := (le_of_mem_pieces hes hx).trans hfst
      obtain ⟨hleft, hrt⟩ := ih hes hx
      exact ⟨hleft.trans (if_pos hle).symm, hrt.trans (if_pos hle).symm⟩

lemma exists_mem_pieces (he : R.cut e ≤ p) (hlat : ∃ e' ∈ es, p < R.cut e') :
    ∃ x ∈ pieces R s t e es, R.cut x.first ≤ p ∧ p < R.cut x.last := by
  induction es generalizing s t e with
  | nil =>
    obtain ⟨e', he', -⟩ := hlat
    cases he'
  | cons e' es ih =>
    by_cases hle : R.cut e' ≤ p
    · obtain ⟨x, hx, hp⟩ := ih hle (by
        obtain ⟨e'', he'', hlt⟩ := hlat
        rcases mem_cons.1 he'' with rfl | he''
        · exact (hle.not_gt hlt).elim
        · exact ⟨e'', he'', hlt⟩)
      exact ⟨x, mem_cons_of_mem _ hx, hp⟩
    · exact ⟨_, mem_cons_self, he, not_le.1 hle⟩

/-- The pieces of a whole list of endpoints. -/
def allPieces (R : Reading E C D) : List E → List (Piece E D)
  | [] => []
  | e :: es => pieces R (adjust R e none) (adjust R.swap e none) e es

/-- What is open in a piece was adjusted at its first endpoint, and alternates at its last one. -/
structure Piece.Proper (R : Reading E C D) (x : Piece E D) : Prop where
  left_eq : ∃ s, x.left = adjust R x.first s
  right_eq : ∃ t, x.right = adjust R.swap x.first t
  left_last : ∀ d ∈ R.left x.last, x.left = if R.opens x.last then none else some d
  right_last : ∀ d ∈ R.right x.last, x.right = if R.opens x.last then none else some d

section

omit [LinearOrder C]

lemma proper_of_mem_pieces (hleft : Alternates R (adjust R e s) es)
    (hrt : Alternates R.swap (adjust R.swap e t) es)
    (hx : x ∈ pieces R (adjust R e s) (adjust R.swap e t) e es) : x.Proper R := by
  induction es generalizing s t e with
  | nil => cases hx
  | cons e' es ih =>
    rcases mem_cons.1 hx with rfl | hx
    · exact ⟨⟨s, rfl⟩, ⟨t, rfl⟩, hleft.1, hrt.1⟩
    · exact ih hleft.2 hrt.2 hx

lemma proper_of_mem_allPieces (hleft : Alternates R none zs) (hrt : Alternates R.swap none zs)
    (hx : x ∈ allPieces R zs) : x.Proper R := by
  cases zs with
  | nil => cases hx
  | cons e es => exact proper_of_mem_pieces hleft.2 hrt.2 hx

lemma mem_of_mem_allPieces (hx : x ∈ allPieces R zs) : x.first ∈ zs ∧ x.last ∈ zs := by
  cases zs with
  | nil => cases hx
  | cons e es => exact (mem_of_mem_pieces hx).imp_right (mem_cons_of_mem e)

end

omit [LinearOrder C] in
lemma rel_of_mem_allPieces {r : E → E → Prop} (h : zs.Pairwise r) (hx : x ∈ allPieces R zs) :
    r x.first x.last := by
  cases zs with
  | nil => cases hx
  | cons e es => exact rel_of_mem_pieces h hx

lemma le_of_mem_allPieces (h : Ascending R zs) (hx : x ∈ allPieces R zs) :
    R.cut x.first ≤ R.cut x.last :=
  rel_of_mem_allPieces h hx

lemma pairwise_allPieces (h : Ascending R zs) :
    (allPieces R zs).Pairwise fun x y => R.cut x.last ≤ R.cut y.first := by
  cases zs with
  | nil => exact List.Pairwise.nil
  | cons e es => exact pairwise_pieces h

/-- There is a piece around a position at which something is open, and what is open in it are the
intervals of the two lists at the position. -/
theorem exists_mem_allPieces_iff (h : Ascending R zs) (hleft : Alternates R none zs)
    (hrt : Alternates R.swap none zs) {P : Option D → Option D → Prop} (hP : ¬ P none none) :
    (∃ x ∈ allPieces R zs, R.cut x.first ≤ p ∧ p < R.cut x.last ∧ P x.left x.right) ↔
      P (stateAt R p none zs) (stateAt R.swap p none zs) := by
  cases zs with
  | nil =>
    refine iff_of_false ?_ hP
    rintro ⟨x, hx, -⟩
    cases hx
  | cons e es =>
    by_cases he : R.cut e ≤ p
    · have hswap : R.swap.cut e ≤ p := he
      rw [stateAt, if_pos he, stateAt, if_pos hswap]
      constructor
      · rintro ⟨x, hx, hfst, hlast, hPx⟩
        obtain ⟨hleft', hrt'⟩ := open_of_mem_pieces h hx hfst hlast
        rwa [← hleft', ← hrt']
      · intro hPp
        have hlat : ∃ e' ∈ es, p < R.cut e' := by
          by_cases hopen : stateAt R p (adjust R e none) es = none
          · have hopen' : stateAt R.swap p (adjust R.swap e none) es ≠ none := by
              intro hnone
              rw [hopen, hnone] at hPp
              exact hP hPp
            exact hrt.2.exists_lt hopen'
          · exact hleft.2.exists_lt hopen
        obtain ⟨x, hx, hfst, hlast⟩ := exists_mem_pieces he hlat
        obtain ⟨hleft', hrt'⟩ := open_of_mem_pieces h hx hfst hlast
        exact ⟨x, hx, hfst, hlast, by rwa [hleft', hrt']⟩
    · have hswap : ¬ R.swap.cut e ≤ p := he
      rw [stateAt, if_neg he, stateAt, if_neg hswap]
      refine iff_of_false ?_ hP
      rintro ⟨x, hx, hfst, -⟩
      exact he ((le_of_mem_pieces h hx).trans hfst)

end IntervalSweeps
