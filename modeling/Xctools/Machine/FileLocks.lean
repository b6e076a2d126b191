import Mathlib.Logic.Function.Basic
import Mathlib.Tactic.SplitIfs

/-! Write locks on whole files that belong to processes: a file's lock has one holder, a process that asks for
the lock of a file which another one holds is turned away, and a process that exits gives up all it has. -/
namespace Xctools.Machine

section FileLocks
variable {φ π : Type*} [DecidableEq φ] [DecidableEq π]

/-- Who holds the lock of each file. -/
def Locks (φ π : Type*) : Type _ := φ → Option π

/-- A process asks for a lock. It may have it already. -/
def Locks.grab (locks : Locks φ π) (p : π) (file : φ) : Option (Locks φ π) :=
  if locks file = none ∨ locks file = some p then some (Function.update locks file (some p)) else none

/-- A process gives up a lock, if it has it. -/
def Locks.drop (locks : Locks φ π) (p : π) (file : φ) : Locks φ π :=
  fun f => if f = file ∧ locks f = some p then none else locks f

/-- A process gives up all its locks. -/
def Locks.leave (locks : Locks φ π) (p : π) : Locks φ π :=
  fun file => if locks file = some p then none else locks file

variable {locks locks' : Locks φ π} {p q : π} {file f : φ}

theorem Locks.grab_self (h : locks.grab p file = some locks') : locks' file = some p := by
  unfold Locks.grab at h
  split_ifs at h with hfree
  obtain rfl := Option.some.inj h
  exact Function.update_self file (some p) locks

/-- Nobody loses a lock to one who asks for it. -/
theorem Locks.grab_keeps (h : locks.grab p file = some locks') (hq : locks f = some q) : locks' f = some q := by
  unfold Locks.grab at h
  split_ifs at h with hfree
  obtain rfl := Option.some.inj h
  by_cases hf : f = file
  · subst hf
    rw [hq] at hfree
    rcases hfree with hnone | hself
    · cases hnone
    · obtain rfl := Option.some.inj hself
      exact Function.update_self f (some q) locks
  · exact (Function.update_of_ne hf (some p) locks).trans hq

theorem Locks.drop_keeps (hne : q ≠ p ∨ f ≠ file) (hq : locks f = some q) : locks.drop p file f = some q := by
  have hother : ¬ (f = file ∧ locks f = some p) := by
    rintro ⟨hf,hp⟩
    exact hne.elim (fun h => h (Option.some.inj (hq.symm.trans hp))) fun h => h hf
  exact (if_neg hother).trans hq

omit [DecidableEq φ] in
theorem Locks.leave_keeps (hne : q ≠ p) (hq : locks f = some q) : locks.leave p f = some q := by
  have hother : locks f ≠ some p := fun h => hne (Option.some.inj (hq.symm.trans h))
  exact (if_neg hother).trans hq

end FileLocks

end Xctools.Machine
