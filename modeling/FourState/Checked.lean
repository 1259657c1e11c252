import FourState.Fault
import FourState.Mask

/-!
# Checked machine arithmetic

Sums and products of 64-bit machine integers.  A result that does not fit is a
fault; one that fits is the sum or product of the natural numbers.
-/

namespace FourState
namespace Checked

/-- Add within 64 bits. -/
def add (left right : Nat) : Except Fault Nat := do
  require (left + right < modulus 64) Fault.overflow
  return left + right

/-- Multiply within 64 bits. -/
def mul (left right : Nat) : Except Fault Nat := do
  require (left * right < modulus 64) Fault.overflow
  return left * right

theorem add_eq_ok {left right : Nat} (fits : left + right < modulus 64) :
    add left right = .ok (left + right) := by
  rw [add, require_bind_of_true fits]
  rfl

theorem mul_eq_ok {left right : Nat} (fits : left * right < modulus 64) :
    mul left right = .ok (left * right) := by
  rw [mul, require_bind_of_true fits]
  rfl

end Checked
end FourState
