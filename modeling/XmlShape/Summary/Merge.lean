import XmlShape.Summary.Basic
import XmlShape.Text.Quoted

/-! # Merging summaries

Two summaries are alike when they differ at most in the order of attributes and children. Merging a
summary with one that is alike counts nothing twice. -/

namespace XmlShape.Summary

mutual
def alike : Summary → Summary → Bool
  | ⟨name, counts, mixed, texts, attributes, children⟩, other =>
    name == other.name && counts == other.counts && mixed == other.mixed &&
      texts == other.texts && AttributeSummary.sameAll attributes other.attributes &&
      children.length == other.children.length && alikeEach other.children children

/-- Each child has a counterpart among `others` that is alike. -/
def alikeEach (others : List Summary) : List Summary → Bool
  | [] => true
  | c :: cs =>
    (match find? others c.name with
      | some o => c.alike o
      | none => false) && alikeEach others cs
end

inductive MergeError where
  | differentNames (first second : String)
deriving DecidableEq

def MergeError.message : MergeError → String
  | differentNames first second =>
    "Cannot merge descriptors for different tags: " ++ Text.quoted first ++ " and " ++
      Text.quoted second

/-- The first summary if both are alike, else the two absorbed. -/
def merge (first second : Summary) : Except MergeError Summary :=
  if first.name = second.name then
    .ok (if first.alike second then first else first.absorb second)
  else .error (.differentNames first.name second.name)

end XmlShape.Summary
