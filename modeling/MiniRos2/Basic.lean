import MiniRos2.Lib.OrdMap
import MiniRos2.Lib.Decimal
import MiniRos2.Lib.ByteMem
/-!
# Basic — texts, exceptions and how a call can fail to return

A `std::string` is a list of bytes.  A call that does not return normally throws one of the standard exceptions the
sources throw, or leaves what C++ defines (an access behind an array, a `strcpy` that does not fit): `Abort.undefined`
is not caught by any handler.  `Abort.outOfFuel` is not a behaviour of the program: it is the answer of a recursion
that was given too small a bound, and the parser's theorems exclude it.
-/
namespace MiniRos2

/-- The bytes of a string literal. -/
def utf8 (s : String) : List UInt8 := s.toList.flatMap String.utf8EncodeChar

/-- The standard exceptions the sources throw, with their `what()`. -/
inductive Exn where
  | invalidArgument (what : List UInt8)
  | outOfRange (what : List UInt8)
  | domainError (what : List UInt8)
  | lengthError (what : List UInt8)
  | runtimeError (what : List UInt8)
  deriving DecidableEq, Repr

inductive Abort where
  | throws (e : Exn)
  | undefined
  | outOfFuel
  deriving DecidableEq, Repr

/-- `std::to_string` of a `size_t`. -/
def toString (n : Nat) : List UInt8 := Decimal.digits n

/-- `ss << n` and `std::to_string` of an `int`. -/
def printInt (n : Int) : List UInt8 :=
  if n < 0 then 45 :: Decimal.digits n.natAbs else Decimal.digits n.natAbs

theorem Except.ok_bind {ε α β : Type} (a : α) (f : α → Except ε β) : (Except.ok a >>= f) = f a := rfl

/-- **What a sequence that returned did**: its first part returned, and the rest did from there. -/
theorem Except.bind_eq_ok {ε α β : Type} {x : Except ε α} {f : α → Except ε β} {b : β} (h : (x >>= f) = .ok b) :
    ∃ a, x = .ok a ∧ f a = .ok b := by
  cases x with
  | error e => cases h
  | ok a => exact ⟨a, rfl, h⟩

/-- `++` of an `int` that does not overflow. -/
theorem Int32.toInt_succ {n : Int32} (h : n.toInt < 2 ^ 31 - 1) : (n + 1).toInt = n.toInt + 1 := by
  have hlo := Int32.le_toInt n
  rw [Int32.toInt_add, show (1 : Int32).toInt = 1 from rfl]
  exact Int.bmod_eq_of_le (by omega) (by omega)

/-- `--` of an `int` that does not overflow. -/
theorem Int32.toInt_pred {n : Int32} (h : -2 ^ 31 < n.toInt) : (n - 1).toInt = n.toInt - 1 := by
  have hhi := Int32.toInt_lt n
  rw [Int32.toInt_sub, show (1 : Int32).toInt = 1 from rfl]
  exact Int.bmod_eq_of_le (by omega) (by omega)

end MiniRos2
