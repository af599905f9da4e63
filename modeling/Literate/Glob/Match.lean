import Literate.Glob.Pattern
import Literate.Path

/-! Matching a text against a pattern. The tokens of the pattern are taken one by one, and after
each it is known which ends of the text may be left over; the text matches if the empty end is one
of them after the last token. With `literalSlash` the separator is matched only by a separator in
the pattern or by `**`. -/

namespace Literate.Glob

/-- Marks ends of a text, one mark for each end: first the whole text, last the empty one. -/
abbrev Ends := List Bool

/-- Whether a token for one character takes `c`. -/
def Token.accepts (literalSlash : Bool) (c : Char) : Token → Bool
  | char d => c = d
  | anyChar => !(literalSlash && c = '/')
  | within set => !(literalSlash && c = '/') && set.any (·.contains c)
  | outside set => !(literalSlash && c = '/') && !set.any (·.contains c)
  | anySequence | anyRecursive => false

/-- Drops one accepted character; `here` tells whether the present end is reached that way. -/
def Ends.dropOne (accepts : Char → Bool) (here : Bool) : Ends → Text → Ends
  | [], _ => []
  | _ :: _, [] => [here]
  | e :: es, c :: cs => here :: dropOne accepts (e && accepts c) es cs

/-- Drops any run of characters, but none that `stops`. -/
def Ends.dropRun (stops : Char → Bool) (here : Bool) : Ends → Text → Ends
  | [], _ => []
  | e :: _, [] => [here || e]
  | e :: es, c :: cs => (here || e) :: dropRun stops ((here || e) && !stops c) es cs

/-- Drops nothing, or everything, or up to some separator; `marked` tells whether a longer end was
marked, `here` whether a separator stands in front of the present one as well. -/
def Ends.dropComponents (marked here : Bool) : Ends → Text → Ends
  | [], _ => []
  | e :: _, [] => [marked || e]
  | e :: es, c :: cs =>
    (here || e) :: dropComponents (marked || e) ((marked || e) && c = '/') es cs

/-- What may be left over after one more token. -/
def Ends.after (literalSlash : Bool) (t : Text) (es : Ends) : Token → Ends
  | .anySequence => es.dropRun (fun c => literalSlash && c = '/') false t
  | .anyRecursive => es.dropComponents false false t
  | k => es.dropOne (fun c => k.accepts literalSlash c) false t

def Ends.whole (t : Text) : Ends :=
  true :: t.map fun _ => false

def matchTokens (literalSlash : Bool) (ts : List Token) (t : Text) : Bool :=
  (ts.foldl (Ends.after literalSlash t) (Ends.whole t)).getLast? = some true

/-- `*` also takes separators. -/
def Pattern.matchesText (p : Pattern) (t : Text) : Bool :=
  matchTokens false p.tokens t

def Pattern.matchesPath (p : Pattern) (path : Path) : Bool :=
  matchTokens false p.tokens path.text

/-- `*` stops at separators. -/
def Pattern.matchesComponents (p : Pattern) (path : Path) : Bool :=
  matchTokens true p.tokens path.text

end Literate.Glob
