import Literate.Text.Hidden

/-! Quoted texts for messages. A quoted text stands on one line and shows every character:
quotes, backslashes and the usual controls are escaped by a letter, all other hidden characters by
their code point. -/

namespace Literate.Text

def escape (c : Char) : Text :=
  if c = '"' then ['\\', '"']
  else if c = '\\' then ['\\', '\\']
  else if c = '\n' then ['\\', 'n']
  else if c = '\r' then ['\\', 'r']
  else if c = '\t' then ['\\', 't']
  else if c.toNat = 0 then ['\\', '0']
  else if isHidden c then "\\u\x7b".toList ++ hex c.toNat ++ "\x7d".toList
  else [c]

def quoted (t : Text) : Text :=
  '"' :: t.flatMap escape ++ ['"']

end Literate.Text
