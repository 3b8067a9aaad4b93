import Delog.Removal.Range
import Delog.Removal.Gap
import Delog.Removal.Tidy

/-!
# Removal/Edit — removing ranges from a text

The ranges are removed from the last to the first, each at the offsets it has in the text as given,
so that a range still to come is not moved by those already removed.  Closing a gap may however take
blanks that a range still to come covers; such a range is *stale* once one of its ends no longer
lies between two characters of the edited text.
-/

namespace Delog

open Text

/-- **Why a text is not edited.** -/
inductive EditError where
  /-- The list of ranges was turned down before anything was removed. -/
  | rejected (error : RangeError)
  /-- Part of this range was already gone when its turn came. -/
  | stale (range : Removal)
deriving DecidableEq, Repr

namespace Removal

/-- **Carries out one removal** on a text that is already edited to the right of it. -/
def run (s : Text) (r : Removal) : Except EditError Text :=
  if isBoundary s r.start && isBoundary s r.stop then
    let before := takeBytes r.start s
    let after := dropBytes r.stop s
    if r.placeholder then .ok (before ++ ';' :: after)
    else .ok ((closeGap before after).1 ++ (closeGap before after).2)
  else .error (.stale r)

/-- Carries out removals in the order given. -/
def runAll (s : Text) : List Removal → Except EditError Text
  | [] => .ok s
  | r :: rs => (run s r).bind (runAll · rs)

end Removal

/-- Whether the text is handed back as it is: there is nothing to remove. -/
def leavesUntouched (ranges : List Removal) : Bool := ranges.isEmpty

/-- **Removes ranges from a text and tidies what is left.**  With nothing to remove the text stays
as it is, untidied. -/
def edit (given : Text) (ranges : List Removal) : Except EditError Text :=
  if leavesUntouched ranges then .ok given
  else
    let sorted := Removal.sortDescending ranges
    match Removal.fault given sorted with
    | some e => .error (.rejected e)
    | none => (Removal.runAll given sorted).map (Removal.tidy given)

end Delog
