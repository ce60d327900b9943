/-! Where whole numbers of a fixed width end. -/
namespace ServiceDirectory.Number

def largest32 : Nat := 4294967295

def largest64 : Nat := 18446744073709551615

def fitsSigned32 (n : Int) : Bool := -2147483648 ≤ n && n ≤ 2147483647

def fitsSigned64 (n : Int) : Bool := -9223372036854775808 ≤ n && n ≤ 9223372036854775807

end ServiceDirectory.Number
