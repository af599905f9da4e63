import Literate.Text.Basic

/-! Glob patterns: `?` is one character, `*` any run, `**` any run of whole components, `[a-z]`
and `[!a-z]` one character inside or outside a set. A malformed pattern is refused with the place
where reading stopped. -/

namespace Literate.Glob

/-- The characters from `low` to `high`. -/
structure CharRange where
  low : Char
  high : Char
  deriving DecidableEq, Repr

def CharRange.contains (r : CharRange) (c : Char) : Bool :=
  r.low.toNat ≤ c.toNat && c.toNat ≤ r.high.toNat

inductive Token where
  | char (c : Char)
  | anyChar
  | anySequence
  | anyRecursive
  | within (set : List CharRange)
  | outside (set : List CharRange)
  deriving DecidableEq, Repr

inductive Problem where
  | wildcards
  | recursiveWildcards
  | range
  deriving DecidableEq, Repr

/-- A fault in a pattern and the number of characters before it. -/
structure PatternError where
  position : Nat
  problem : Problem
  deriving DecidableEq, Repr

def Problem.message : Problem → Text
  | wildcards => "wildcards are either regular `*` or recursive `**`".toList
  | recursiveWildcards => "recursive wildcards must form a single path component".toList
  | range => "invalid range pattern".toList

def PatternError.message (e : PatternError) : Text :=
  "Pattern syntax error near position ".toList ++ Text.ofNat e.position ++ ": ".toList ++
    e.problem.message

structure Pattern where
  source : Text
  tokens : List Token
  deriving DecidableEq, Repr

/-- Reads the inside of a bracket; `a-z` is a range, everything else stands for itself. -/
def charSet : Text → List CharRange
  | a :: '-' :: b :: cs => ⟨a, b⟩ :: charSet cs
  | a :: cs => ⟨a, a⟩ :: charSet cs
  | [] => []

/-- Splits at the first closing bracket after at least one character. -/
def bracket? : Text → Option (Text × Text)
  | [] => none
  | c :: cs =>
    match cs.dropWhile (· ≠ ']') with
    | [] => none
    | _ :: rest => some (c :: cs.takeWhile (· ≠ ']'), rest)

theorem length_of_bracket? {t set rest : Text} (h : bracket? t = some (set, rest)) :
    rest.length < t.length := by
  cases t with
  | nil => simp [bracket?] at h
  | cons c cs =>
    simp only [bracket?] at h
    split at h
    · simp at h
    · rename_i d r hd
      have := (List.dropWhile_sublist (l := cs) (fun x => decide (x ≠ ']'))).length_le
      simp at h
      rw [hd] at this
      simp at this ⊢
      rw [← h.2]
      omega

/-- Two neighbouring `**` count once, unless they open the pattern. -/
def pushRecursive (done : List Token) : List Token :=
  if 1 < done.length ∧ done.head? = some .anyRecursive then done else .anyRecursive :: done

/-- Reads from position `pos`; `before` is the character in front, `done` the tokens so far, last
one first. -/
def readTokens (pos : Nat) (before : Option Char) (done : List Token) :
    Text → Except PatternError (List Token)
  | [] => .ok done.reverse
  | '?' :: cs => readTokens (pos + 1) (some '?') (.anyChar :: done) cs
  | '*' :: '*' :: '*' :: _ => .error ⟨pos + 2, .wildcards⟩
  | '*' :: '*' :: cs =>
    if before = none ∨ before = some '/' then
      match cs with
      | [] => .ok (pushRecursive done).reverse
      | '/' :: rest => readTokens (pos + 3) (some '/') (pushRecursive done) rest
      | _ => .error ⟨pos + 2, .recursiveWildcards⟩
    else .error ⟨pos - 1, .recursiveWildcards⟩
  | '*' :: cs => readTokens (pos + 1) (some '*') (.anySequence :: done) cs
  | '[' :: '!' :: cs =>
    match h : bracket? cs with
    | some (set, rest) =>
      have := length_of_bracket? h
      readTokens (pos + set.length + 3) (some ']') (.outside (charSet set) :: done) rest
    | none => .error ⟨pos, .range⟩
  | '[' :: cs =>
    match h : bracket? cs with
    | some (set, rest) =>
      have := length_of_bracket? h
      readTokens (pos + set.length + 2) (some ']') (.within (charSet set) :: done) rest
    | none => .error ⟨pos, .range⟩
  | c :: cs => readTokens (pos + 1) (some c) (.char c :: done) cs
termination_by t => t.length
decreasing_by all_goals simp only [List.length_cons]; omega

def Pattern.read (source : Text) : Except PatternError Pattern :=
  (readTokens 0 none [] source).map fun tokens => ⟨source, tokens⟩

/-- A pattern of characters that stand for themselves, as text. -/
def Pattern.literal? (p : Pattern) : Option Text :=
  p.tokens.mapM fun
    | .char c => some c
    | _ => none

/-- Patterns with `**`, which stand for whole components. -/
def Pattern.isRecursive (p : Pattern) : Bool :=
  p.tokens.contains .anyRecursive

end Literate.Glob
