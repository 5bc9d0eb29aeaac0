import FlinkExplorer.Lib.Requests
import FlinkExplorer.Parser.Metadata

namespace FlinkExplorer

open Lib Lib.Read

/-!
# The format of a `_metadata` file

What stands in a `_metadata` file, as a table: a list of fields, where a tag or a number may say
which fields follow.  A `FileWalk` goes along the fields over the bytes of a file; nothing of what
it passes is kept.

* `metadataFields` — the format;
* `FileWalk.next` — the next field;
* `FileWalk.asks` — the count or length that is met there, and what it counts;
* `MeetsCount` — the counts and lengths of a file.
-/

/-- What stands in a file. -/
inductive Field
  /-- Bytes that decide nothing. -/
  | fixed (width : Nat)
  /-- A tag and the fields it announces; a file with any other tag is malformed. -/
  | tag (table : UInt8 → Option (List Field))
  /-- A number and the fields it announces. -/
  | number (table : Int32 → Option (List Field))
  /-- A text behind its 2-byte length. -/
  | text (table : Text → List Field)
  /-- As many bytes as a length says. -/
  | data (n : Int)
  /-- As many elements as a count says, kept in a vector. -/
  | list (e : VecItem) (n : Int) (fields : List Field)
  /-- As many elements as a count says, not kept. -/
  | times (n : Int) (fields : List Field)
  | stream
  | keyed

namespace Field

/-- A text that decides nothing. -/
def name : Field := .text fun _ => []

/-- A number that any value may be. -/
def count (table : Int32 → List Field) : Field := .number fun n => some (table n)

/-- The elements of a vector behind their count. -/
def listOf (e : VecItem) (fields : List Field) : Field := count fun n => [.list e n.toInt fields]

end Field

section Format

open FlinkExplorer.Field

/-! ### Handles -/

/-- A key-groups handle: its first key-group, its offsets, and its delegate. -/
def keyGroupsFields : List Field := [.fixed 4, listOf .offset [.fixed 8], .stream]

/-- The stream handles, by tag. -/
def streamFields : Nat → Option (List Field)
  | 0 => some []
  | 1 => some [name, count fun n => if 0 < n then [.data n.toInt] else []]
  | 2 => some [.fixed 8, name]
  | 3 => some keyGroupsFields
  | 6 => some [name, .fixed 8]
  | 15 => some [.fixed 8, .fixed 8, .fixed 4, name, name]
  | 16 => some []
  | _ => none

/-- Files with their local paths. -/
def localPathFields : Field := listOf .localPath [name, .stream]

/-- Streams with an offset each. -/
def offsetAndHandleFields : Field := listOf .offsetAndHandle [.fixed 8, .stream]

/-- The changes of an increment in bytes. -/
def changeFields : Field :=
  count fun n => [.times n.toInt [.fixed 4, count fun m => [.data m.toInt]]]

/-- The keyed handles, by tag. -/
def keyedFields : Nat → Option (List Field)
  | 0 => some []
  | 3 => some keyGroupsFields
  | 5 => some [.fixed 8, name, .fixed 4, .fixed 4, .stream, localPathFields, localPathFields]
  | 7 => some keyGroupsFields
  | 8 => some [.fixed 4, .fixed 4, .fixed 8, listOf .keyedHandle [.keyed],
      listOf .keyedHandle [.keyed], .fixed 8, name]
  | 9 => some [.fixed 4, .fixed 4, .fixed 8, .fixed 8, changeFields, name]
  | 10 => some [.fixed 4, .fixed 4, offsetAndHandleFields, .fixed 8, .fixed 8, name]
  | 11 => some [.fixed 8, name, .fixed 4, .fixed 4, .fixed 8, .stream, localPathFields,
      localPathFields, name]
  | 12 => some (keyGroupsFields ++ [name])
  | 13 => some [.fixed 4, .fixed 4, offsetAndHandleFields, .fixed 8, .fixed 8, name, name]
  | 14 => some [.fixed 4, .fixed 4, .fixed 8, listOf .keyedHandle [.keyed],
      listOf .keyedHandle [.keyed], .fixed 8, .fixed 8, name]
  | _ => none

/-- Offsets under names. -/
def partitionFields : Field := listOf .partition [name, .fixed 1, listOf .offset [.fixed 8]]

/-- The operator state handles, by tag. -/
def operatorStateFields : Nat → Option (List Field)
  | 0 => some []
  | 4 => some [partitionFields, .stream]
  | 17 => some [partitionFields, name, name, .fixed 1, .stream]
  | _ => none

/-! ### The file -/

/-- What is left of a master state's bytes when its data has been read. -/
def restFields (numBytes : Int) (name : Text) (dataLen : Int) : List Field :=
  let consumed := 4 + 2 + (String.ofList name).utf8ByteSize + 4 + dataLen
  if numBytes < 0 ∨ consumed < numBytes then [.data (numBytes - consumed)] else []

/-- The state of a master hook. -/
def masterStateFields : List Field :=
  [.number fun magic =>
    if magic.toUInt32 = masterStateMagicNumber then
      some [count fun numBytes => [.fixed 4, .text fun name => [count fun n =>
        .data n.toInt :: restFields numBytes.toInt name n.toInt]]]
    else none]

/-- A channel: its numbers, its offsets, its size and its delegate. -/
def channelFields : List Field :=
  [.fixed 4, .fixed 4, .fixed 4, listOf .offset [.fixed 8], .fixed 8, .stream]

/-- A list of at most one handle. -/
def optionalFields : Field :=
  count fun has => if has = 1 then [.tag fun tag => operatorStateFields tag.toNat] else []

/-- A finished subtask has its index only. -/
def subtaskFields : List Field :=
  [count fun index =>
    if index < 0 then []
    else [optionalFields, optionalFields, .keyed, .keyed,
      count fun n => [.times n.toInt channelFields], count fun n => [.times n.toInt channelFields]]]

/-- The number of subtasks is -1 where there are none, and its sign is dropped otherwise. -/
def subtaskCount (n : Int32) : Nat := if n = -1 then 0 else n.toInt.natAbs

/-- An operator, as its version writes it. -/
def operatorFields (version : UInt32) : List Field :=
  (if version ≥ 5 then [name, name] else [])
    ++ [.fixed 8, .fixed 8, .fixed 4, .fixed 4, .stream,
      count fun n => [.list .subtask (subtaskCount n) subtaskFields]]

/-- The metadata, from its magic number on. -/
def metadataFields : List Field :=
  [.number fun magic =>
    if magic.toUInt32 = headerMagicNumber then
      some [.number fun version =>
        if minSupportedVersion ≤ version.toUInt32 ∧ version.toUInt32 ≤ maxSupportedVersion then
          some [.fixed 8, listOf .masterState masterStateFields,
            listOf .operator (operatorFields version.toUInt32)]
        else none]
    else none]

end Format

/-! ### Walks -/

/-- The fields ahead, and where their bytes are. -/
structure FileWalk where
  fields : List Field
  reader : JavaReader

/-- Past a value that announces fields. -/
def FileWalk.past {β : Type} (p : ReadBytes ParseError β) (table : β → Option (List Field))
    (fields : List Field) (r : JavaReader) : Option FileWalk :=
  match p r with
  | (.ok v, r') => (table v).map fun announced => ⟨announced ++ fields, r'⟩
  | (.error _, _) => none

/-- Past the next field; a walk stops where the data ends or is malformed. -/
def FileWalk.next : FileWalk → Option FileWalk
  | ⟨[], _⟩ => none
  | ⟨.fixed width :: fs, r⟩ => past (readExactBytes width) (fun _ => some []) fs r
  | ⟨.tag table :: fs, r⟩ => past readByte table fs r
  | ⟨.number table :: fs, r⟩ => past readInt table fs r
  | ⟨.text table :: fs, r⟩ => past readUtf (fun t => some (table t)) fs r
  | ⟨.data n :: fs, r⟩ => past (readExactBytes n.toNat) (fun _ => some []) fs r
  | ⟨.list _ n fields :: fs, r⟩ => some ⟨(List.replicate n.toNat fields).flatten ++ fs, r⟩
  | ⟨.times n fields :: fs, r⟩ => some ⟨(List.replicate n.toNat fields).flatten ++ fs, r⟩
  | ⟨.stream :: fs, r⟩ => some ⟨.tag (fun tag => streamFields tag.toNat) :: fs, r⟩
  | ⟨.keyed :: fs, r⟩ => some ⟨.tag (fun tag => keyedFields tag.toNat) :: fs, r⟩

/-- The count or length that comes next, with what there is so many of. -/
def FileWalk.asks : FileWalk → Option (VecItem × Int)
  | ⟨.data n :: _, _⟩ => some (.byte, n)
  | ⟨.list e n _ :: _, _⟩ => some (e, n)
  | _ => none

/-- **A file has a count or length `n`** of a kind of elements, with all that stands before it. -/
def MeetsCount (source : Bytes) (e : VecItem) (n : Int) : Prop :=
  ∃ w, Reaches FileWalk.next ⟨metadataFields, JavaReader.new source⟩ w ∧ w.asks = some (e, n)

end FlinkExplorer
