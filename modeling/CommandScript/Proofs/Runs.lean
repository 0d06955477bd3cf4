import CommandScript.Arena.Machine

/-!
# Runs of the machine

A run of so many steps and then so many more is a run of all of them, and a
machine that has finished stays as it is. `cut` takes a stack back to the
depth it had.
-/

namespace CommandScript.Arena

/-! ## Steps -/

namespace Machine

variable {code : List (Instruction Action)}

theorem run_of_isFinished {m : Machine} (h : m.isFinished code) (n : Nat) :
    run code n m = .ok m := by
  cases n with
  | zero => rfl
  | succ n => rw [run, if_pos h]

theorem run_add (code : List (Instruction Action)) (j k : Nat) (m : Machine) :
    run code (j + k) m = run code j m >>= run code k := by
  induction j generalizing m with
  | zero => rw [Nat.zero_add]; rfl
  | succ j ih =>
    rw [Nat.add_right_comm, run, run]
    split
    · rename_i h
      exact (run_of_isFinished h k).symm
    · cases m.step code with
      | error fault => rfl
      | ok m' => exact ih m'

/-- A machine that has not finished is at an instruction. -/
theorem ip_of_not_isFinished {m : Machine} (h : ¬ m.isFinished code) :
    m.ended = false ∧ ∃ i, code[m.ip]? = some i := by
  rw [isFinished, Bool.or_eq_true, not_or, Bool.not_eq_true, decide_eq_true_eq, Nat.not_le] at h
  exact ⟨h.1, code.get ⟨m.ip, h.2⟩, List.getElem?_eq_getElem h.2⟩

end Machine

/-! ## Cut stacks -/

section Cut

variable {α : Type} {depth : Nat}

theorem cut_append (top : List α) {bottom : List α} (h : bottom.length = depth) :
    cut depth (top ++ bottom) = bottom := by
  rw [cut, List.length_append, h, Nat.add_sub_cancel, List.drop_left]

theorem length_cut {stack : List α} (h : depth ≤ stack.length) :
    (cut depth stack).length = depth := by
  rw [cut, List.length_drop, Nat.sub_sub_self h]

theorem mem_of_mem_cut {stack : List α} {x : α} (h : x ∈ cut depth stack) : x ∈ stack :=
  List.mem_of_mem_drop h

end Cut

end CommandScript.Arena
