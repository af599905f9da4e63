import Literate.Fence
import Literate.Log
import Literate.Settings.Basic

/-! Documents: the closed fences of a text whose language is wanted, as code blocks. -/

namespace Literate

structure Document where
  path : Option Path
  blocks : List Block
  deriving DecidableEq, Repr

namespace Document

def locate (path : Option Path) (f : Fence) : Location :=
  ⟨path, f.line⟩

/-- The block of a fence, unless the fence is open or its language is not wanted. -/
def block? (settings : Settings) (path : Option Path) (f : Fence) : Option Block :=
  if f.closed && settings.accepts (Label.languageTag f.info) then
    some ⟨if f.info = [] then none else some f.info, f.content, some (locate path f)⟩
  else none

def read (settings : Settings) (path : Option Path) (t : Text) : Document :=
  ⟨path, (Fence.read t).filterMap (block? settings path)⟩

/-- One warning for each fence that is never closed. -/
def warnings (path : Option Path) (t : Text) : List Entry :=
  ((Fence.read t).filter (!·.closed)).map fun f =>
    ⟨.warn, "Unclosed code block at ".toList ++ (locate path f).text ++ ", skipping".toList⟩

end Document

end Literate
