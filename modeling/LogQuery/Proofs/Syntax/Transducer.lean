import Mathlib.Data.List.Basic
/-!
# Transducers

A transducer reads its input one symbol at a time, writes as it goes, and may
refuse.  `Passes t s as out s'` says that from `s` it reads all of `as`, writes
`out` and stands in `s'`.  Passages follow one another (`Passes.append`), and a
passage takes its part off a run (`Passes.run_append`); so a reader is followed
fragment by fragment, whatever comes after.  `next?` stops where something is
first written, so that a silent passage is all that it skips
(`Passes.next?_append`).
-/

namespace LogQuery.Syntax

structure Transducer (α β σ : Type) where
  step : σ → α → Option (List β × σ)
  /-- What is still to be written where the input ends. -/
  finish : σ → Option (List β)

namespace Transducer

variable {α β σ : Type} {t : Transducer α β σ}

def run (t : Transducer α β σ) : σ → List α → Option (List β)
  | s, [] => t.finish s
  | s, a :: as => (t.step s a).bind fun r => (run t r.2 as).map (r.1 ++ ·)

/-- What is written first, and the input that is left there. -/
def next? (t : Transducer α β σ) : σ → List α → Option (List β × List α)
  | _, [] => none
  | s, a :: as =>
    (t.step s a).bind fun r => if r.1.isEmpty then next? t r.2 as else some (r.1, as)

inductive Passes (t : Transducer α β σ) : σ → List α → List β → σ → Prop
  | nil (s : σ) : Passes t s [] [] s
  | cons {s s' s'' : σ} {a : α} {as : List α} {out out' : List β} :
      t.step s a = some (out, s') → Passes t s' as out' s'' → Passes t s (a :: as) (out ++ out') s''

namespace Passes

theorem single {s s' : σ} {a : α} {out : List β} (h : t.step s a = some (out, s')) :
    Passes t s [a] out s' := by
  have hp := cons h (nil s')
  rwa [List.append_nil] at hp

theorem append {s s' s'' : σ} {as bs : List α} {out out' : List β} (h : Passes t s as out s')
    (h' : Passes t s' bs out' s'') : Passes t s (as ++ bs) (out ++ out') s'' := by
  induction h with
  | nil => exact h'
  | cons hstep _ ih =>
    rw [List.cons_append, List.append_assoc]
    exact cons hstep (ih h')

/-- **A passage takes its part off a run.** -/
theorem run_append {s s' : σ} {as : List α} {out : List β} (h : Passes t s as out s')
    (rest : List α) : t.run s (as ++ rest) = (t.run s' rest).map (out ++ ·) := by
  induction h with
  | nil s =>
    rw [List.nil_append]
    exact Option.map_id'.symm
  | cons hstep _ ih =>
    rw [List.cons_append, run, hstep, Option.bind_some, ih, Option.map_map]
    congr 1
    funext o
    exact (List.append_assoc _ _ o).symm

theorem run_eq {s s' : σ} {as : List α} {out last : List β} (h : Passes t s as out s')
    (hlast : t.finish s' = some last) : t.run s as = some (out ++ last) := by
  have hrun := h.run_append []
  rwa [List.append_nil, run, hlast, Option.map_some] at hrun

/-- **What is written first comes after a silent passage.** -/
theorem next?_append {s s' : σ} {as : List α} {out : List β} (h : Passes t s as out s')
    (hout : out = []) (rest : List α) : t.next? s (as ++ rest) = t.next? s' rest := by
  induction h with
  | nil => rfl
  | cons hstep _ ih =>
    obtain ⟨rfl, hrest⟩ := List.append_eq_nil_iff.mp hout
    rw [List.cons_append, next?, hstep, Option.bind_some, List.isEmpty_nil, if_pos rfl, ih hrest]

end Passes

end Transducer

end LogQuery.Syntax
