universe u

namespace UniversalMachine

structure Fifo (α : Type u) where
  front : List α
  back : List α

namespace Fifo

variable {α : Type u}

def empty : Fifo α := ⟨[], []⟩

def toList (q : Fifo α) : List α := q.front ++ q.back.reverse

def push (q : Fifo α) (a : α) : Fifo α := ⟨q.front, a :: q.back⟩

def pop? (q : Fifo α) : Option (α × Fifo α) :=
  match q.front with
  | a :: front => some (a, ⟨front, q.back⟩)
  | [] =>
    match q.back.reverse with
    | a :: front => some (a, ⟨front, []⟩)
    | [] => none

@[simp] theorem toList_empty : (empty : Fifo α).toList = [] := rfl

@[simp] theorem toList_push (q : Fifo α) (a : α) : (q.push a).toList = q.toList ++ [a] := by
  simp [toList, push]

theorem pop?_eq_none_iff {q : Fifo α} : q.pop? = none ↔ q.toList = [] := by
  obtain ⟨_ | ⟨a, front⟩, back⟩ := q
  · cases h : back.reverse <;> simp_all [pop?, toList]
  · simp [pop?, toList]

theorem toList_of_pop? {q r : Fifo α} {a : α} (h : q.pop? = some (a, r)) :
    q.toList = a :: r.toList := by
  obtain ⟨_ | ⟨b, front⟩, back⟩ := q
  · cases hb : back.reverse with
    | nil => simp [pop?, hb] at h
    | cons b front =>
      simp only [pop?, hb, Option.some.injEq, Prod.mk.injEq] at h
      obtain ⟨rfl, rfl⟩ := h
      simp [toList, hb]
  · simp only [pop?, Option.some.injEq, Prod.mk.injEq] at h
    obtain ⟨rfl, rfl⟩ := h
    simp [toList]

end Fifo

end UniversalMachine
