import Mathlib.Tactic.Common
import Mathlib.Data.Int.Interval

/-! Contiguous storage: a length and the contents at each index. Only indices
below the length are storage; that an access stays below it is a separate fact. -/

structure Buffer (α : Type) where
  size : Nat
  read : Nat → α

namespace Buffer
variable {α : Type}

def replicate (n : Nat) (a : α) : Buffer α := ⟨n, fun _ => a⟩

def write (b : Buffer α) (i : Nat) (a : α) :
    Buffer α := { b with read := Function.update b.read i a }

def push (b : Buffer α) (a : α) : Buffer α := ⟨b.size + 1, Function.update b.read b.size a⟩

@[simp] theorem sizeReplicate (n : Nat) (a : α) : (replicate n a).size = n := rfl
@[simp] theorem readReplicate (n : Nat) (a : α) (i : Nat) : (replicate n a).read i = a := rfl
@[simp] theorem sizeWrite (b : Buffer α) (i : Nat) (a : α) : (b.write i a).size = b.size := rfl
@[simp] theorem sizePush (b : Buffer α) (a : α) : (b.push a).size = b.size + 1 := rfl

theorem readWrite (b : Buffer α) (i j : Nat) (a : α) :
    (b.write i a).read j = if j = i then a else b.read j := by
  simp [write, Function.update_apply]

theorem readPush (b : Buffer α) (j : Nat) (a : α) :
    (b.push a).read j = if j = b.size then a else b.read j := by
  simp [push, Function.update_apply]

end Buffer
