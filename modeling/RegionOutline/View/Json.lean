import RegionOutline.Entry.Json
import RegionOutline.View

/-! # The view as data

The whole outline with the viewport, for other programs to read. -/

namespace RegionOutline.View

open RegionOutline.Json

def toJson (view : View) : Value :=
  .object [
    (some "first_visible", Value.ofNat view.firstVisible),
    (some "focused", (view.focused.map Value.ofNat).getD .null),
    (some "entries", .array (view.entries.map Entry.toJson))]

def json (view : View) : String :=
  view.toJson.pretty

end RegionOutline.View
