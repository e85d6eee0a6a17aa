import Mathlib.Data.List.Basic

/-!
# Replies to pipelined requests

A child that is given several requests answers them in order, each with some items and an end. The
replies carry the tag of their request. What is in a queue and what the child still has to send are
together the replies to the requests that are not used up.
-/
namespace Pipelines

variable {τ ι : Type*}

variable (s : τ × List ι) (t : τ) (i : ι) (is : List ι) (l : List (τ × List ι))

/-- The replies to requests with these tags and items; an end is a reply without item. -/
def stream : List (τ × Option ι) :=
  l.flatMap fun s => s.2.map (fun i => (s.1, some i)) ++ [(s.1, none)]

@[simp] lemma stream_nil : stream ([] : List (τ × List ι)) = [] := rfl

lemma stream_cons :
    stream (s :: l) = s.2.map (fun i => (s.1, some i)) ++ (s.1, none) :: stream l := by
  simp [stream]

@[simp] lemma stream_end :
    stream ((t, []) :: l) = (t, none) :: stream l := stream_cons _ _

@[simp] lemma stream_item :
    stream ((t, i :: is) :: l) = (t, some i) :: stream ((t, is) :: l) := by
  rw [stream_cons, stream_cons]
  rfl

lemma stream_append (l m : List (τ × List ι)) : stream (l ++ m) = stream l ++ stream m :=
  List.flatMap_append

variable {t : τ} {q : List (τ × Option ι)}

variable {l m : List (τ × List ι)}

lemma stream_eq_item {i : ι} (h : (t, some i) :: q = stream l) :
    ∃ is m, l = (t, i :: is) :: m ∧ q = stream ((t, is) :: m) := by
  cases l with
  | nil => cases h
  | cons s m =>
    obtain ⟨u, is⟩ := s
    cases is with
    | nil =>
      rw [stream_end] at h
      cases h
    | cons j is =>
      rw [stream_item] at h
      cases h
      exact ⟨is, m, rfl, rfl⟩

lemma stream_eq_end (h : (t, none) :: q = stream l) :
    ∃ m, l = (t, []) :: m ∧ q = stream m := by
  cases l with
  | nil => cases h
  | cons s m =>
    obtain ⟨u, is⟩ := s
    cases is with
    | nil =>
      rw [stream_end] at h
      cases h
      exact ⟨m, rfl, rfl⟩
    | cons j is =>
      rw [stream_item] at h
      cases h

lemma stream_injective (h : stream l = stream m) : l = m := by
  generalize hq : stream l = q at h
  induction q generalizing l m with
  | nil =>
    cases l with
    | nil =>
      cases m with
      | nil => rfl
      | cons s m => simp [stream_cons] at h
    | cons s l => simp [stream_cons] at hq
  | cons x q ih =>
    obtain ⟨t, i⟩ := x
    cases i with
    | none =>
      obtain ⟨l', rfl, hl⟩ := stream_eq_end hq.symm
      obtain ⟨m', rfl, hm⟩ := stream_eq_end h
      rw [ih hl.symm hm]
    | some i =>
      obtain ⟨is, l', rfl, hl⟩ := stream_eq_item hq.symm
      obtain ⟨js, m', rfl, hm⟩ := stream_eq_item h
      cases ih hl.symm hm
      rfl

/-- What is still to be sent belongs to the last requests: a child that has sent `q` is in the
middle of one of them. -/
theorem stream_split {is : List ι}
    (h : q ++ stream ((t, is) :: m) = stream l) :
    ∃ a d, l = a ++ (t, d ++ is) :: m ∧ q = stream a ++ d.map fun i => (t, some i) := by
  induction q generalizing l with
  | nil => exact ⟨[], [], (stream_injective h).symm, rfl⟩
  | cons x q ih =>
    obtain ⟨u, i⟩ := x
    cases i with
    | none =>
      obtain ⟨l', rfl, hl⟩ := stream_eq_end h
      obtain ⟨a, d, rfl, rfl⟩ := ih hl
      exact ⟨(u, []) :: a, d, rfl, by rw [stream_end]; rfl⟩
    | some j =>
      obtain ⟨js, l', rfl, hl⟩ := stream_eq_item h
      obtain ⟨a, d, heq, rfl⟩ := ih hl
      cases a with
      | nil =>
        cases heq
        exact ⟨[], j :: d, rfl, rfl⟩
      | cons s a =>
        cases heq
        exact ⟨(u, j :: js) :: a, d, rfl, by rw [stream_item]; rfl⟩

end Pipelines
