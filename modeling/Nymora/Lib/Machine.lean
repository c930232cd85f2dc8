import Mathlib.Algebra.BigOperators.Group.List.Basic
import Mathlib.Algebra.Order.Ring.Nat

namespace Machine

variable {ε α : Type}

-- How a call ends early: the error it returns, or a panic.
inductive Fault (ε : Type)
  | Panic
  | Err (error : ε)
deriving DecidableEq

-- An expression that panics without a value: an index, a slice, a copy.
def inBounds : Option α → Except (Fault ε) α
  | some value => .ok value
  | none => .error .Panic

-- `ok_or(error)?`
def okOr (error : ε) : Option α → Except (Fault ε) α
  | some value => .ok value
  | none => .error (.Err error)

-- What a call that cannot panic returns.
def lift : Except ε α → Except (Fault ε) α
  | .ok value => .ok value
  | .error error => .error (.Err error)

inductive PointerWidth
  | W32 | W64
deriving DecidableEq

-- A machine and a build for it. Arithmetic past `usize` panics where the build checks for
-- overflow, and wraps where it does not.
structure Host where
  width : PointerWidth
  overflowChecks : Bool
deriving DecidableEq

namespace Host

def bits (host : Host) : Nat :=
  match host.width with
  | .W32 => 32
  | .W64 => 64

-- One past the largest `usize`.
def limit (host : Host) : Nat := 2 ^ host.bits

def add (host : Host) (left right : Nat) : Except (Fault ε) Nat :=
  if left + right < host.limit then .ok (left + right)
  else if host.overflowChecks then .error .Panic
  else .ok ((left + right) % host.limit)

-- A sum, from left to right.
def sum (host : Host) (terms : List Nat) : Except (Fault ε) Nat := terms.foldlM host.add 0

-- `checked_mul`
def checkedMul (host : Host) (left right : Nat) : Option Nat :=
  if left * right < host.limit then some (left * right) else none

-- `usize::try_from`
def usizeFrom (host : Host) (value : UInt64) : Option Nat :=
  if value.toNat < host.limit then some value.toNat else none

variable {host : Host}

theorem limit_le (host : Host) : host.limit ≤ 2 ^ 64 := by
  unfold limit bits
  apply Nat.pow_le_pow_right (by decide)
  split <;> decide

theorem add_eq_ok {left right : Nat} (hsum : left + right < host.limit) :
    (host.add left right : Except (Fault ε) Nat) = .ok (left + right) := if_pos hsum

theorem sum_eq_ok {terms : List Nat} (hsum : terms.sum < host.limit) :
    (host.sum terms : Except (Fault ε) Nat) = .ok terms.sum := by
  have hfold : ∀ (terms : List Nat) (start : Nat), start + terms.sum < host.limit →
      (terms.foldlM host.add start : Except (Fault ε) Nat) = .ok (start + terms.sum) := by
    intro terms
    induction terms with
    | nil => exact fun start _ => rfl
    | cons term terms ih =>
        intro start hstart
        rw [List.sum_cons, ← Nat.add_assoc] at hstart ⊢
        rw [List.foldlM_cons, add_eq_ok (by omega)]
        exact ih _ hstart
  have hall := hfold terms 0 (by omega)
  rwa [Nat.zero_add] at hall

theorem usizeFrom_eq_some {value : UInt64} {size : Nat} :
    host.usizeFrom value = some size ↔ value.toNat = size ∧ size < host.limit := by
  unfold usizeFrom
  split
  · grind
  · grind

end Host

end Machine
