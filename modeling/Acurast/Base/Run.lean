import Mathlib.Data.List.Basic

/-! Runs of a deterministic transition function, and the induction rules for them. A failed
operation is a step that stays where it is, so a run is a fold over its operations. -/

namespace Base

variable {S O : Type*}

def run (step : S → O → S) (s : S) (ops : List O) : S := ops.foldl step s

/-- Every step of the run is taken from a state and with an operation that `ok` accepts. -/
def Along (step : S → O → S) (ok : S → O → Prop) : S → List O → Prop
  | _, [] => True
  | s, o :: os => ok s o ∧ Along step ok (step s o) os

instance decidableAlong (step : S → O → S) (ok : S → O → Prop) [∀ s o, Decidable (ok s o)] :
    (s : S) → (ops : List O) → Decidable (Along step ok s ops)
  | _, [] => isTrue trivial
  | s, o :: os =>
    have := decidableAlong step ok (step s o) os
    inferInstanceAs (Decidable (ok s o ∧ Along step ok (step s o) os))

variable {step : S → O → S} {ok : S → O → Prop} {s : S}

@[simp] theorem run_nil : run step s [] = s := rfl

@[simp] theorem run_cons (o : O) (os : List O) : run step s (o :: os) = run step (step s o) os := rfl

theorem run_append (as bs : List O) : run step s (as ++ bs) = run step (run step s as) bs :=
  List.foldl_append

theorem along_append {as bs : List O} :
    Along step ok s (as ++ bs) ↔ Along step ok s as ∧ Along step ok (run step s as) bs := by
  induction as generalizing s with
  | nil => simp [Along]
  | cons o os ih => simp [Along, ih, and_assoc]

variable {ok' : S → O → Prop} {ops : List O} {inv : S → Prop}

theorem Along.imp (h : ∀ s o, ok s o → ok' s o) (hr : Along step ok s ops) :
    Along step ok' s ops := by
  induction ops generalizing s with
  | nil => trivial
  | cons o os ih => exact ⟨h s o hr.1, ih hr.2⟩

theorem Along.and (h : Along step ok s ops) (h' : Along step ok' s ops) :
    Along step (fun s o => ok s o ∧ ok' s o) s ops := by
  induction ops generalizing s with
  | nil => trivial
  | cons o os ih => exact ⟨⟨h.1, h'.1⟩, ih h.2 h'.2⟩

theorem Along.of_forall (h : ∀ s o, ok s o) (ops : List O) : Along step ok s ops := by
  induction ops generalizing s with
  | nil => trivial
  | cons o os ih => exact ⟨h s o, ih⟩

theorem Along.of_mem {p : O → Prop} (h : ∀ o ∈ ops, p o) : Along step (fun _ o => p o) s ops := by
  induction ops generalizing s with
  | nil => trivial
  | cons o os ih =>
    exact ⟨h o (List.mem_cons_self ..), ih fun o' ho' => h o' (List.mem_cons_of_mem _ ho')⟩

theorem run_invariant (hs : ∀ s o, ok s o → inv s → inv (step s o)) (hr : Along step ok s ops)
    (h : inv s) : inv (run step s ops) := by
  induction ops generalizing s with
  | nil => exact h
  | cons o os ih => exact ih hr.2 (hs s o hr.1 h)

theorem run_invariant' (hs : ∀ s o, inv s → inv (step s o)) (ops : List O) (h : inv s) :
    inv (run step s ops) := by
  induction ops generalizing s with
  | nil => exact h
  | cons o os ih => exact ih (hs s o h)

def recordRun {R : Type*} (step : S → O → S) (note : R → S → O → R) : S → R → List O → R
  | _, r, [] => r
  | s, r, o :: os => recordRun step note (step s o) (note r s o) os

theorem recordRun_invariant {R : Type*} {note : R → S → O → R} {inv : S → R → Prop}
    (hs : ∀ s r o, ok s o → inv s r → inv (step s o) (note r s o)) {r : R}
    (hr : Along step ok s ops) (h : inv s r) :
    inv (run step s ops) (recordRun step note s r ops) := by
  induction ops generalizing s r with
  | nil => exact h
  | cons o os ih => exact ih hr.2 (hs s r o hr.1 h)

end Base
