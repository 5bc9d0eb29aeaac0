import FlinkExplorer.Reader.Cache
import FlinkExplorer.Reader.Context

namespace FlinkExplorer

open Lib

/-!
# `reader/mod.rs` — the walk of a page

`key_page`, `scan_with` and `count` are one loop over the positions of an operator.  They differ
in where they stop and in what they do with a key, and `Walk` holds these differences.  The loop
asks for a block through `Fetch`, which hides where blocks come from: `grouped` reads them through
the cache.
-/

/-- What a call read. -/
structure ReadStats where
  blocks : Nat
  cacheHits : Nat
  bytesRead : Nat
  blockBytes : Nat
  maxBlockBytes : Nat
  deriving DecidableEq

/-- `ReadStats::default`. -/
def ReadStats.zero : ReadStats := ⟨0, 0, 0, 0, 0⟩

/-- What one call of a walk gives: what it gathered, and where the next one starts. -/
structure Page (α : Type) where
  found : α
  next : Option Cursor
  stats : ReadStats
  malformed : List Text
  unreadable : List Unreadable

/-- A block with the header it is read by, `none` for an empty key-group, or why it cannot be
    read; and what asking for it did. -/
abbrev Fetch (σ : Type) :=
  SubtaskStream → Int → ReadStats → σ →
    Except Text (Option (SubtaskHeader × GroupedBlock)) × ReadStats × σ

/-- How far one call goes, and what it does with a key. -/
structure Walk (α : Type) where
  lastKeyGroup : Option UInt16
  byteBudget : Option Nat
  full : α → Bool
  step : SubtaskStream → SubtaskHeader → Int → Nat → RawKey → α → α

namespace Walk

variable {α σ : Type} (w : Walk α)

/-- Whether a key-group is past the range of the call. -/
def past (kg : Int) : Bool := w.lastKeyGroup.any fun l => kg > l.toNat

/-- Past the range the walk is over. -/
def clip : Position → Position
  | .block s kg ordinal => if w.past kg then .ended else .block s kg ordinal
  | .unreadable u kg => if w.past kg then .ended else .unreadable u kg
  | .ended => .ended

/-- Whether the call stops before a position. -/
def stops (visited : Nat) (stats : ReadStats) (found : α) : Bool :=
  (0 < visited && w.byteBudget.any fun budget => stats.blockBytes ≥ budget) || w.full found

/-- The keys of a block from the `ord`-th on: what is gathered, and the key the call stopped
    before. -/
def keys (s : SubtaskStream) (header : SubtaskHeader) (kg : Int) :
    Nat → List RawKey → α → α × Option Nat
  | _, [], found => (found, none)
  | ord, raw :: rest, found =>
    if w.full found then (found, some ord)
    else keys s header kg (ord + 1) rest (w.step s header kg ord raw found)

/-- The loop.  Each turn moves on by a key-group or more, so `turns` is how many there are. -/
def loop (fetch : Fetch σ) (units : List ReadUnit) :
    Nat → Position → Nat → Page α → σ → Page α × σ
  | 0, _, _, page, st => (page, st)
  | turns + 1, pos, visited, page, st =>
    match w.clip pos with
    | .ended => (page, st)
    | .unreadable u from' =>
      if w.stops visited page.stats page.found then
        ({ page with next := (Position.unreadable u from').cursorOf }, st)
      else
        loop fetch units turns (seekUnits (u.last + 1) 0 units) (visited + 1)
          { page with unreadable := page.unreadable ++ [u.unreadable from'] } st
    | .block s kg ordinal =>
      if w.stops visited page.stats page.found then
        ({ page with next := (Position.block s kg ordinal).cursorOf }, st)
      else
        let later := seekUnits (kg + 1) 0 units
        match fetch s kg page.stats st with
        | (.error e, stats, st) =>
          loop fetch units turns later (visited + 1)
            { page with stats := stats, unreadable := page.unreadable ++ [unreadableBlock s kg e] }
            st
        | (.ok none, stats, st) =>
          loop fetch units turns later (visited + 1) { page with stats := stats } st
        | (.ok (some (header, block)), stats, st) =>
          let page := { page with
            stats := stats, malformed := page.malformed ++ block.defect.toList }
          match w.keys s header kg ordinal.toNat (block.keys.drop ordinal.toNat) page.found with
          | (found, some ord) =>
            ({ page with
              found := found
              next := some ⟨s.subtaskIndex, UInt16.ofInt kg, UInt32.ofNat ord⟩ }, st)
          | (found, none) =>
            loop fetch units turns later (visited + 1) { page with found := found } st

/-- The key-group after the last one of any unit. -/
def endKeyGroup (units : List ReadUnit) : Int := units.foldr (fun u m => max (u.last + 1) m) 0

/-- One call, from a key-group and an ordinal in it on. -/
def run (fetch : Fetch σ) (ctx : OpContext) (from' : Int) (ordinal : UInt32) (found : α) (st : σ) :
    Page α × σ :=
  w.loop fetch ctx.units ((endKeyGroup ctx.units - from').toNat + 1) (ctx.seek from' ordinal) 0
    ⟨found, none, .zero, [], []⟩ st

end Walk

end FlinkExplorer
