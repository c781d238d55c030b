/-!
# Recently typed characters

The last two characters that were typed, which tell a line break whether a block
has just been closed by hand.
-/
namespace EditingEngine

structure RecentKeys where
  last : Option Char
  secondLast : Option Char
  deriving DecidableEq, Repr

namespace RecentKeys

/-- Nothing was typed. -/
def none : RecentKeys := ⟨.none, .none⟩

def push (keys : RecentKeys) (c : Char) : RecentKeys := ⟨some c, keys.last⟩

/-- Whether one of the two characters is in a class. -/
def any (keys : RecentKeys) (p : Char → Bool) : Bool :=
  keys.last.any p || keys.secondLast.any p

end RecentKeys
end EditingEngine
