/-
The decimal text of whole numbers.
-/

namespace DeviceScript
namespace Numeral

def naturalText (n : Nat) : String := String.ofList (Nat.toDigits 10 n)

/-- Negative integers carry a minus sign, and nothing else carries a sign. -/
def integerChars : Int → List Char
  | .ofNat n => Nat.toDigits 10 n
  | .negSucc n => '-' :: Nat.toDigits 10 (n + 1)

def integerText (i : Int) : String := String.ofList (integerChars i)

end Numeral
end DeviceScript
