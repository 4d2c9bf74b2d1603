/-! # Columns and digit groups -/

namespace XmlShape.Text

def alignRight (width : Nat) (s : String) : String :=
  String.ofList (List.replicate (width - s.length) ' ') ++ s

def alignLeft (width : Nat) (s : String) : String :=
  s ++ String.ofList (List.replicate (width - s.length) ' ')

/-- The decimal digits of `n`, the last one first, with a comma after each three that are not the last
group. -/
def groupFromEnd : Nat → List Char → List Char
  | _, [] => []
  | 0, c :: cs => ',' :: c :: groupFromEnd 2 cs
  | k + 1, c :: cs => c :: groupFromEnd k cs

def grouped (n : Int) : String :=
  let digits := String.ofList (groupFromEnd 3 (toString n.natAbs).toList.reverse).reverse
  if n < 0 then "-" ++ digits else digits

end XmlShape.Text
