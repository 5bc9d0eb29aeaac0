import FlinkExplorer.Lib.Checked
import FlinkExplorer.Lib.Text
import FlinkExplorer.Parser.StateHandle
import Mathlib.Data.List.Sort

namespace FlinkExplorer

open Lib

/-!
# `parser/operator_state.rs` — the elements of an operator-state stream

A handle lists where each element of a stream starts; an element runs to the next start of any
state, or to the end of the stream.  Of a compressed stream each element is a run of Snappy chunks.

* `Laid` — elements back to back, their starts listed in any order;
* `element_raw` — what is cut at a listed start is that element;
* `inflate_append` — chunk runs inflate one after the other;
* `inflateSnappyChunksAt`, `elementAt` — the same index by index; no step aborts;
* `operatorState_exact` — all of it.

Snappy's decoder is a parameter.
-/

/-! ### The header -/

/-- `OPERATOR_BACKEND_VERSION`. -/
def operatorBackendVersion : Int := 6

structure OperatorStreamHeader where
  version : Int
  usingStateCompression : Bool
  deriving DecidableEq

/-- The version and the compression flag, if `data` starts like an operator backend stream. -/
def readOperatorStreamHeader (data : Bytes) : Option OperatorStreamHeader :=
  if data.length < 4 then none
  else
    let version := beInt (data.take 4)
    if ¬ (1 ≤ version ∧ version ≤ operatorBackendVersion) then none
    else if version ≥ 6 then (data[4]?).map fun flag => ⟨version, flag != 0⟩
    else some ⟨version, false⟩

/-- Four bytes that spell the version. -/
theorem beInt_eq_six {a b c d : UInt8} : beInt [a, b, c, d] = 6 ↔ a = 0 ∧ b = 0 ∧ c = 0 ∧ d = 6 := by
  have ha := a.toNat_lt
  have hb := b.toNat_lt
  have hc := c.toNat_lt
  have hd := d.toNat_lt
  simp only [← UInt8.toNat_inj]
  have hvalue : beNat [a, b, c, d]
      = a.toNat * 16777216 + b.toNat * 65536 + c.toNat * 256 + d.toNat := by
    simp only [beNat_cons, beNat_nil, List.length_cons, List.length_nil]
    omega
  unfold beInt
  rw [hvalue]
  simp only [List.length_cons, List.length_nil]
  have h₀ : (0 : UInt8).toNat = 0 := rfl
  have h₆ : (6 : UInt8).toNat = 6 := rfl
  rw [h₀, h₆]
  split <;> omega

/-- **A stream is compressed** when it says version 6 and a flag that is not 0. -/
theorem readOperatorStreamHeader_compressed_iff {data : Bytes} :
    (∃ header, readOperatorStreamHeader data = some header
        ∧ header.usingStateCompression = true)
      ↔ ∃ flag rest, data = 0 :: 0 :: 0 :: 6 :: flag :: rest ∧ flag ≠ 0 := by
  constructor
  · rintro ⟨header, hheader, hcompressed⟩
    unfold readOperatorStreamHeader at hheader
    split at hheader
    · cases hheader
    · rename_i hlong
      dsimp only at hheader
      split at hheader
      · cases hheader
      · rename_i hversion
        split at hheader
        · rename_i hsix
          obtain ⟨flag, hflag, rfl⟩ := Option.map_eq_some_iff.mp hheader
          rcases data with _ | ⟨a, _ | ⟨b, _ | ⟨c, _ | ⟨d, rest⟩⟩⟩⟩
          · exact absurd (by decide) hlong
          · exact absurd (by simp) hlong
          · exact absurd (by simp) hlong
          · exact absurd (by simp) hlong
          -- a version below 6 has no flag, and one above is refused
          · have hbytes : beInt [a, b, c, d] = 6 := by
              rw [not_not] at hversion
              have hle : beInt [a, b, c, d] ≤ 6 := hversion.2
              have hge : beInt [a, b, c, d] ≥ 6 := hsix
              omega
            obtain ⟨rfl, rfl, rfl, rfl⟩ := beInt_eq_six.mp hbytes
            cases rest with
            | nil => cases hflag
            | cons flag' rest =>
              obtain rfl := Option.some.inj hflag
              exact ⟨flag', rest, rfl, by simpa using hcompressed⟩
        · obtain rfl := Option.some.inj hheader
          cases hcompressed
  · rintro ⟨flag, rest, rfl, hflag⟩
    have hversion : beInt [0, 0, 0, 6] = 6 := beInt_eq_six.mpr ⟨rfl, rfl, rfl, rfl⟩
    refine ⟨⟨6, flag != 0⟩, ?_, by simpa using hflag⟩
    unfold readOperatorStreamHeader
    rw [if_neg (by simp)]
    simp [hversion, operatorBackendVersion]

/-! ### Snappy chunks -/

/-- `snap::raw`: the length a block says it has, and its bytes in a buffer of that length. -/
structure Snappy where
  decompressLen : Bytes → Except Text Nat
  decompress : Bytes → Nat → Except Text Bytes

/-- A chunk's type, its body, and what follows it. -/
def nextChunk (raw : Bytes) : Except Text (UInt8 × Bytes × Bytes) :=
  match raw with
  | flag :: a :: b :: c :: after =>
    let len := a.toNat ||| b.toNat <<< 8 ||| c.toNat <<< 16
    if after.length < len then
      .error ("chunk 0x".toList ++ hexByte flag ++ " of ".toList ++ natText len
        ++ " bytes truncated to ".toList ++ natText after.length)
    else .ok (flag, after.take len, after.drop len)
  | short => .error ("truncated chunk header (".toList ++ natText short.length ++ " bytes)".toList)

/-- What a chunk adds to `out`. -/
def chunkData (snap : Snappy) (flag : UInt8) (body out : Bytes) : Except Text Bytes :=
  if flag = 0x00 ∨ flag = 0x01 then
    if body.length < 5 then
      .error ("invalid length ".toList ++ natText body.length ++ " for chunk 0x".toList
        ++ hexByte flag)
    else
      -- The first four bytes are the masked CRC, which is not checked.
      let data := body.drop 4
      if flag = 0x01 then .ok (out ++ data)
      else do
        let n ← snap.decompressLen data
        if n > 2 ^ 16 then
          .error ("chunk inflates to ".toList ++ natText n
            ++ " bytes, over the 65536-byte limit".toList)
        else do
          let inflated ← snap.decompress data n
          .ok (out ++ inflated)
  else if flag = 0xFF ∧ body.length ≠ 6 then
    .error ("stream identifier chunk with invalid length: ".toList ++ natText body.length)
  else if 0x02 ≤ flag ∧ flag ≤ 0x7F then
    .error ("unsupported unskippable chunk: 0x".toList ++ hexByte flag)
  else .ok out

theorem nextChunk_ok {raw body rest : Bytes} {flag : UInt8}
    (h : nextChunk raw = .ok (flag, body, rest)) :
    ∃ header, header.length = 4 ∧ raw = header ++ body ++ rest
      ∧ ∀ more, nextChunk (header ++ body ++ more) = .ok (flag, body, more) := by
  unfold nextChunk at h
  split at h
  · rename_i flag' a b c after
    dsimp only at h
    generalize hlen : a.toNat ||| b.toNat <<< 8 ||| c.toNat <<< 16 = len at h
    by_cases hshort : after.length < len
    · rw [if_pos hshort] at h
      cases h
    · rw [if_neg hshort] at h
      cases h
      have hbody : (after.take len).length = len := by
        rw [List.length_take]
        omega
      refine ⟨[flag, a, b, c], rfl, ?_, fun more => ?_⟩
      · rw [List.append_assoc, List.take_append_drop]
        rfl
      · simp only [nextChunk, List.cons_append, List.nil_append, hlen]
        rw [if_neg (by rw [List.length_append]; omega), List.take_left' hbody,
          List.drop_left' hbody]
  · cases h

theorem length_nextChunk {raw body rest : Bytes} {flag : UInt8}
    (h : nextChunk raw = .ok (flag, body, rest)) : rest.length < raw.length := by
  obtain ⟨header, hheader, rfl, -⟩ := nextChunk_ok h
  simp only [List.length_append]
  omega

/-- Decode a run of chunks and append their data to `out`. -/
def inflateSnappyChunks (snap : Snappy) (raw out : Bytes) : Except Text Bytes :=
  if raw = [] then .ok out
  else
    match _hchunk : nextChunk raw with
    | .error e => .error e
    | .ok (flag, body, rest) =>
      match chunkData snap flag body out with
      | .error e => .error e
      | .ok out => inflateSnappyChunks snap rest out
termination_by raw.length
decreasing_by exact length_nextChunk _hchunk

/-! ### Elements -/

/-- Offsets without the repeated ones, of a sorted list. -/
def dedupSorted : List Nat → List Nat
  | a :: b :: rest => if a = b then dedupSorted (b :: rest) else a :: dedupSorted (b :: rest)
  | short => short

/-- The index after the elements that `p` holds of, in a list that starts with them all. -/
def partitionPoint (p : Nat → Bool) (xs : List Nat) : Nat := (xs.takeWhile p).length

/-- The elements of one stream; `boundaries` has every start and the end of the stream. -/
structure OperatorStreamElements where
  stream : Bytes
  compressed : Bool
  boundaries : List Nat

namespace OperatorStreamElements

def new (stream : Bytes) (partitions : List PartitionOffsetEntry) :
    Except Text OperatorStreamElements :=
  match readOperatorStreamHeader stream with
  | none =>
    .error ("not an operator-state stream: the ".toList ++ natText stream.length
      ++ "-byte stream does not start with an OperatorBackendSerializationProxy version 1..=".toList
      ++ intText operatorBackendVersion)
  | some header =>
    let offsets := (partitions.flatMap (·.offsets)).filterMap fun o =>
      if 0 ≤ o.toInt then some o.toInt.toNat else none
    let offsets := offsets.filter fun o => o < stream.length
    .ok ⟨stream, header.usingStateCompression,
      dedupSorted ((offsets ++ [stream.length]).insertionSort (· ≤ ·))⟩

variable (snap : Snappy) (es : OperatorStreamElements)

/-- Where the element at `start` ends. -/
def stop (start : Nat) : Nat :=
  (es.boundaries[partitionPoint (· ≤ start) es.boundaries]?).getD es.stream.length

/-- The bytes of the element written at `offset`, inflated if the stream is compressed. -/
def element (offset : Int64) : Except Text Bytes :=
  let len := es.stream.length
  if offset.toInt < 0 ∨ len < offset.toInt.toNat then
    .error ("offset ".toList ++ intText offset.toInt ++ " is outside the ".toList ++ natText len
      ++ "-byte stream".toList)
  else
    let start := offset.toInt.toNat
    let raw := (es.stream.drop start).take (es.stop start - start)
    if !es.compressed then .ok raw
    else (inflateSnappyChunks snap raw []).mapError fun e =>
      "Snappy chunks at offset ".toList ++ intText offset.toInt ++ ": ".toList ++ e

end OperatorStreamElements

/-! ### Where an element ends -/

theorem mem_dedupSorted {x : Nat} {xs : List Nat} : x ∈ dedupSorted xs ↔ x ∈ xs := by
  fun_induction dedupSorted xs with
  | case1 b rest ih => simp [ih]
  | case2 a b rest hne ih => simp [ih]
  | case3 short => rfl

theorem pairwise_dedupSorted {xs : List Nat} (h : xs.Pairwise (· ≤ ·)) :
    (dedupSorted xs).Pairwise (· ≤ ·) := by
  fun_induction dedupSorted xs with
  | case1 b rest ih => exact ih (List.pairwise_cons.mp h).2
  | case2 a b rest hne ih =>
    obtain ⟨hhead, htail⟩ := List.pairwise_cons.mp h
    exact List.pairwise_cons.mpr ⟨fun x hx => hhead x (mem_dedupSorted.mp hx), ih htail⟩
  | case3 short => exact h

/-- In a sorted list the element at a partition point is the least one past it. -/
theorem getElem?_partitionPoint {xs : List Nat} {start stop : Nat} (hsorted : xs.Pairwise (· ≤ ·))
    (hmem : stop ∈ xs) (hpast : start < stop) (hleast : ∀ x ∈ xs, start < x → stop ≤ x) :
    xs[partitionPoint (· ≤ start) xs]? = some stop := by
  induction xs with
  | nil => cases hmem
  | cons x xs ih =>
    obtain ⟨hhead, htail⟩ := List.pairwise_cons.mp hsorted
    by_cases hx : x ≤ start
    · have hlater : stop ∈ xs := by
        rcases List.mem_cons.mp hmem with rfl | h
        · omega
        · exact h
      have hpoint : partitionPoint (· ≤ start) (x :: xs) = partitionPoint (· ≤ start) xs + 1 := by
        simp [partitionPoint, hx]
      rw [hpoint, List.getElem?_cons_succ]
      exact ih htail hlater fun y hy => hleast y (List.mem_cons_of_mem x hy)
    · have hpoint : partitionPoint (· ≤ start) (x :: xs) = 0 := by
        simp [partitionPoint, hx]
      have hle : stop ≤ x := hleast x List.mem_cons_self (not_le.mp hx)
      have hge : x ≤ stop := by
        rcases List.mem_cons.mp hmem with rfl | h
        · exact le_rfl
        · exact hhead stop h
      rw [hpoint, List.getElem?_cons_zero, le_antisymm hge hle]

/-- Elements back to back up to the end of a stream, after some bytes; the partitions list where
    each starts, in any order. -/
structure Laid (stream : Bytes) (partitions : List PartitionOffsetEntry) (before : Bytes)
    (elems : List Bytes) : Prop where
  stream_eq : stream = before ++ elems.flatten
  listed : ∀ n : Int, n ∈ (partitions.flatMap (·.offsets)).map Int64.toInt ↔
    ∃ pre e post, elems = pre ++ e :: post ∧ n = (before ++ pre.flatten).length

section Exact

variable {stream before : Bytes} {partitions : List PartitionOffsetEntry} {elems : List Bytes}
  {es : OperatorStreamElements}

theorem mem_boundaries (hes : OperatorStreamElements.new stream partitions = .ok es) {b : Nat} :
    b ∈ es.boundaries ↔
      b = stream.length
        ∨ b < stream.length ∧ (b : Int) ∈ (partitions.flatMap (·.offsets)).map Int64.toInt := by
  unfold OperatorStreamElements.new at hes
  rcases hheader : readOperatorStreamHeader stream with _ | header
  · rw [hheader] at hes
    cases hes
  rw [hheader] at hes
  obtain rfl := Except.ok.inj hes
  dsimp only
  rw [mem_dedupSorted, List.mem_insertionSort, List.mem_append, List.mem_singleton, List.mem_filter,
    List.mem_filterMap, List.mem_map, or_comm, decide_eq_true_eq]
  refine or_congr Iff.rfl ⟨?_, ?_⟩
  · rintro ⟨⟨o, ho, hb⟩, hlt⟩
    by_cases hpos : 0 ≤ o.toInt
    · rw [if_pos hpos, Option.some.injEq] at hb
      exact ⟨hlt, o, ho, by omega⟩
    · rw [if_neg hpos] at hb
      cases hb
  · rintro ⟨hlt, o, ho, hb⟩
    exact ⟨⟨o, ho, by rw [if_pos (by omega), Option.some.injEq]; omega⟩, hlt⟩

theorem pairwise_boundaries (hes : OperatorStreamElements.new stream partitions = .ok es) :
    es.boundaries.Pairwise (· ≤ ·) := by
  unfold OperatorStreamElements.new at hes
  rcases hheader : readOperatorStreamHeader stream with _ | header
  · rw [hheader] at hes
    cases hes
  rw [hheader] at hes
  obtain rfl := Except.ok.inj hes
  exact pairwise_dedupSorted (List.pairwise_insertionSort _ _)

theorem stream_new (hes : OperatorStreamElements.new stream partitions = .ok es) :
    es.stream = stream ∧ ∃ header, readOperatorStreamHeader stream = some header
      ∧ es.compressed = header.usingStateCompression := by
  unfold OperatorStreamElements.new at hes
  rcases hheader : readOperatorStreamHeader stream with _ | header
  · rw [hheader] at hes
    cases hes
  rw [hheader] at hes
  obtain rfl := Except.ok.inj hes
  exact ⟨rfl, header, rfl, rfl⟩

/-- An element runs up to the next one: no start of another lies inside it. -/
theorem Laid.stop_eq (h : Laid stream partitions before elems)
    (hes : OperatorStreamElements.new stream partitions = .ok es) {pre post : List Bytes} {e : Bytes}
    (helems : elems = pre ++ e :: post) (hne : e ≠ []) :
    es.stop (before ++ pre.flatten).length = (before ++ pre.flatten).length + e.length := by
  have hlen : 0 < e.length := List.length_pos_iff.mpr hne
  have hstream : stream.length
      = (before ++ pre.flatten).length + e.length + post.flatten.length := by
    rw [h.stream_eq, helems]
    simp only [List.flatten_append, List.flatten_cons, List.length_append]
    omega
  have hmem : (before ++ pre.flatten).length + e.length ∈ es.boundaries := by
    rw [mem_boundaries hes]
    cases post with
    | nil =>
      refine .inl ?_
      rw [hstream]
      rfl
    | cons e' post =>
      by_cases hend : (before ++ pre.flatten).length + e.length = stream.length
      · exact .inl hend
      · refine .inr ⟨by omega, (h.listed _).mpr ⟨pre ++ [e], e', post, by simp [helems], ?_⟩⟩
        simp
        omega
  have hleast : ∀ b ∈ es.boundaries, (before ++ pre.flatten).length < b →
      (before ++ pre.flatten).length + e.length ≤ b := by
    intro b hb hlt
    rcases (mem_boundaries hes).mp hb with rfl | ⟨-, hlisted⟩
    · omega
    obtain ⟨pre', e', post', helems', hb'⟩ := (h.listed b).mp hlisted
    rw [helems] at helems'
    -- the other element stands before this one, or after it
    rcases List.append_eq_append_iff.mp helems' with ⟨more, rfl, hrest⟩ | ⟨more, rfl, hrest⟩
    · cases more with
      | nil =>
        simp only [List.append_nil] at hb'
        omega
      | cons x more =>
        obtain ⟨rfl, -⟩ := List.cons.inj hrest
        simp only [List.flatten_append, List.flatten_cons, List.length_append] at hb' hlt ⊢
        omega
    · simp only [List.flatten_append, List.length_append] at hb' hlt
      omega
  unfold OperatorStreamElements.stop
  rw [getElem?_partitionPoint (pairwise_boundaries hes) hmem (by omega) hleast]
  rfl

/-- **What is cut at a listed start** is the element there. -/
theorem Laid.element_eq (h : Laid stream partitions before elems)
    (hes : OperatorStreamElements.new stream partitions = .ok es) (snap : Snappy)
    {pre post : List Bytes} {e : Bytes} (helems : elems = pre ++ e :: post) (hne : e ≠ [])
    {offset : Int64} (hoffset : offset.toInt = (before ++ pre.flatten).length) :
    es.element snap offset
      = if !es.compressed then .ok e
        else (inflateSnappyChunks snap e []).mapError fun msg =>
          "Snappy chunks at offset ".toList ++ intText offset.toInt ++ ": ".toList ++ msg := by
  have hstart : offset.toInt.toNat = (before ++ pre.flatten).length := by omega
  have hcut : (es.stream.drop offset.toInt.toNat).take (es.stop offset.toInt.toNat
      - offset.toInt.toNat) = e := by
    have hstream : stream = (before ++ pre.flatten) ++ (e ++ post.flatten) := by
      rw [h.stream_eq, helems]
      simp
    rw [hstart, h.stop_eq hes helems hne, Nat.add_sub_cancel_left, (stream_new hes).1, hstream,
      List.drop_left, List.take_left]
  have hin : ¬ (offset.toInt < 0 ∨ es.stream.length < offset.toInt.toNat) := by
    rw [hstart, (stream_new hes).1, h.stream_eq, helems]
    simp only [List.flatten_append, List.length_append]
    omega
  unfold OperatorStreamElements.element
  dsimp only
  rw [if_neg hin, hcut]

end Exact

/-! ### Runs of chunks -/

/-- A run of whole chunks. -/
inductive Framed : Bytes → Prop
  | nil : Framed []
  | chunk {raw body rest : Bytes} {flag : UInt8} (h : nextChunk raw = .ok (flag, body, rest))
      (hrest : Framed rest) : Framed raw

section Inflate

variable (snap : Snappy)

theorem inflate_nil (out : Bytes) : inflateSnappyChunks snap [] out = .ok out := by
  rw [inflateSnappyChunks, if_pos rfl]

theorem nextChunk_nil : ∃ e, nextChunk [] = .error e := ⟨_, rfl⟩

/-- The loop takes a chunk and goes on. -/
theorem inflate_chunk {raw body rest : Bytes} {flag : UInt8}
    (h : nextChunk raw = .ok (flag, body, rest)) (out : Bytes) :
    inflateSnappyChunks snap raw out
      = (chunkData snap flag body out).bind (inflateSnappyChunks snap rest) := by
  have hne : raw ≠ [] := by
    rintro rfl
    obtain ⟨e, he⟩ := nextChunk_nil
    rw [he] at h
    cases h
  rw [inflateSnappyChunks, if_neg hne]
  split
  · rename_i e he
    rw [he] at h
    cases h
  · rename_i flag' body' rest' hchunk
    rw [hchunk] at h
    cases h
    cases chunkData snap flag body out <;> rfl

theorem inflate_error {raw : Bytes} {e : Text} (hne : raw ≠ []) (h : nextChunk raw = .error e)
    (out : Bytes) : inflateSnappyChunks snap raw out = .error e := by
  rw [inflateSnappyChunks, if_neg hne]
  split
  · rename_i e' he
    rw [he] at h
    cases h
    rfl
  · rename_i hchunk
    rw [hchunk] at h
    cases h

/-- A run that is accepted is one of whole chunks. -/
theorem framed_of_inflate {raw out out' : Bytes} (h : inflateSnappyChunks snap raw out = .ok out') :
    Framed raw := by
  induction hn : raw.length using Nat.strong_induction_on generalizing raw out with
  | _ n ih =>
    by_cases hnil : raw = []
    · rw [hnil]
      exact .nil
    rcases hchunk : nextChunk raw with e | ⟨flag, body, rest⟩
    · rw [inflate_error snap hnil hchunk] at h
      cases h
    · rw [inflate_chunk snap hchunk] at h
      rcases hdata : chunkData snap flag body out with e | out₁
      · rw [hdata] at h
        cases h
      · rw [hdata] at h
        have hlt := length_nextChunk hchunk
        exact .chunk hchunk (ih rest.length (by omega) h rfl)

theorem chunkData_out (flag : UInt8) (body out : Bytes) :
    chunkData snap flag body out = (chunkData snap flag body []).map (out ++ ·) := by
  unfold chunkData
  by_cases hdata : flag = 0x00 ∨ flag = 0x01
  · rw [if_pos hdata, if_pos hdata]
    by_cases hshort : body.length < 5
    · rw [if_pos hshort, if_pos hshort]
      rfl
    rw [if_neg hshort, if_neg hshort]
    dsimp only
    by_cases hraw : flag = 0x01
    · rw [if_pos hraw, if_pos hraw]
      rfl
    rw [if_neg hraw, if_neg hraw]
    rcases snap.decompressLen (body.drop 4) with e | n
    · rfl
    simp only [bind, Except.bind]
    by_cases hbig : n > 2 ^ 16
    · rw [if_pos hbig, if_pos hbig]
      rfl
    rw [if_neg hbig, if_neg hbig]
    rcases snap.decompress (body.drop 4) n with e | inflated <;> rfl
  · rw [if_neg hdata, if_neg hdata]
    by_cases hid : flag = 0xFF ∧ body.length ≠ 6
    · rw [if_pos hid, if_pos hid]
      rfl
    rw [if_neg hid, if_neg hid]
    by_cases hbad : 0x02 ≤ flag ∧ flag ≤ 0x7F
    · rw [if_pos hbad, if_pos hbad]
      rfl
    · rw [if_neg hbad, if_neg hbad]
      simp [Except.map]

/-- What a run adds does not depend on what is there. -/
theorem inflate_out (raw out : Bytes) :
    inflateSnappyChunks snap raw out = (inflateSnappyChunks snap raw []).map (out ++ ·) := by
  induction hn : raw.length using Nat.strong_induction_on generalizing raw out with
  | _ n ih =>
    by_cases hnil : raw = []
    · rw [hnil, inflate_nil, inflate_nil]
      simp [Except.map]
    rcases hchunk : nextChunk raw with e | ⟨flag, body, rest⟩
    · rw [inflate_error snap hnil hchunk, inflate_error snap hnil hchunk]
      rfl
    · have hlt := length_nextChunk hchunk
      have hrest (b : Bytes) := ih rest.length (by omega) rest b rfl
      rw [inflate_chunk snap hchunk, inflate_chunk snap hchunk, chunkData_out]
      rcases chunkData snap flag body [] with e | added
      · rfl
      · simp only [Except.map, Except.bind]
        rw [hrest (out ++ added), hrest added]
        rcases inflateSnappyChunks snap rest [] with e | more
        · rfl
        · simp [Except.map]

/-- **Runs of chunks inflate one after the other**, errors included. -/
theorem inflate_append {a : Bytes} (ha : Framed a) (b : Bytes) :
    inflateSnappyChunks snap (a ++ b) []
      = (inflateSnappyChunks snap a []).bind fun x =>
        (inflateSnappyChunks snap b []).map fun y => x ++ y := by
  have hall (out : Bytes) : inflateSnappyChunks snap (a ++ b) out
      = (inflateSnappyChunks snap a out).bind (inflateSnappyChunks snap b) := by
    induction ha generalizing out with
    | nil =>
      rw [inflate_nil]
      rfl
    | @chunk raw body rest flag h hrest ih =>
      obtain ⟨header, -, hraw, hmore⟩ := nextChunk_ok h
      have hchunk : nextChunk (raw ++ b) = .ok (flag, body, rest ++ b) := by
        rw [hraw, List.append_assoc]
        exact hmore (rest ++ b)
      rw [inflate_chunk snap hchunk, inflate_chunk snap h]
      rcases chunkData snap flag body out with e | out₁
      · rfl
      · exact ih out₁
  rw [hall []]
  rcases inflateSnappyChunks snap a [] with e | x
  · rfl
  · exact inflate_out snap b x

/-- Runs that each inflate to their data inflate to all of it. -/
theorem inflate_flatten {runs datas : List Bytes}
    (h : List.Forall₂ (fun run data => inflateSnappyChunks snap run [] = .ok data) runs datas) :
    inflateSnappyChunks snap runs.flatten [] = .ok datas.flatten := by
  induction h with
  | nil => exact inflate_nil snap []
  | cons hrun hrest ih =>
    rw [List.flatten_cons, List.flatten_cons, inflate_append snap (framed_of_inflate snap hrun), hrun,
      ih]
    rfl

end Inflate

/-! ### Index by index -/

section Bounds

variable (snap : Snappy)

/-- `nextChunk`, with every index and slice that could abort. -/
def nextChunkAt (raw : Bytes) : Option (Except Text (UInt8 × Bytes × Bytes)) :=
  if raw.length < 4 then
    some (.error ("truncated chunk header (".toList ++ natText raw.length ++ " bytes)".toList))
  else do
    let header ← Checked.slice raw 0 4
    let flag ← header[0]?
    let a ← header[1]?
    let b ← header[2]?
    let c ← header[3]?
    let len := a.toNat ||| b.toNat <<< 8 ||| c.toNat <<< 16
    if raw.length < 4 + len then do
      let left ← Checked.sub raw.length 4
      some (.error ("chunk 0x".toList ++ hexByte flag ++ " of ".toList ++ natText len
        ++ " bytes truncated to ".toList ++ natText left))
    else do
      let body ← Checked.slice raw 4 (4 + len)
      let rest ← Checked.slice raw (4 + len) raw.length
      some (.ok (flag, body, rest))

/-- `chunkData`, with every slice that could abort. -/
def chunkDataAt (flag : UInt8) (body out : Bytes) : Option (Except Text Bytes) :=
  if flag = 0x00 ∨ flag = 0x01 then
    if body.length < 5 then
      some (.error ("invalid length ".toList ++ natText body.length ++ " for chunk 0x".toList
        ++ hexByte flag))
    else do
      let data ← Checked.slice body 4 body.length
      if flag = 0x01 then some (.ok (out ++ data))
      else
        match snap.decompressLen data with
        | .error e => some (.error e)
        | .ok n =>
          if n > 2 ^ 16 then
            some (.error ("chunk inflates to ".toList ++ natText n
              ++ " bytes, over the 65536-byte limit".toList))
          else do
            let buffer ← Checked.slice (out ++ List.replicate n 0) out.length (out.length + n)
            some ((snap.decompress data buffer.length).map (out ++ ·))
  else if flag = 0xFF ∧ body.length ≠ 6 then
    some (.error ("stream identifier chunk with invalid length: ".toList ++ natText body.length))
  else if 0x02 ≤ flag ∧ flag ≤ 0x7F then
    some (.error ("unsupported unskippable chunk: 0x".toList ++ hexByte flag))
  else some (.ok out)

/-- The chunks of a run, at most `fuel - 1` of them. -/
def inflateLoop : Nat → Bytes → Bytes → Option (Except Text Bytes)
  | 0, _, _ => none
  | fuel + 1, raw, out =>
    if raw = [] then some (.ok out)
    else do
      match ← nextChunkAt raw with
      | .error e => some (.error e)
      | .ok (flag, body, rest) =>
        match ← chunkDataAt snap flag body out with
        | .error e => some (.error e)
        | .ok out => inflateLoop fuel rest out

/-- `inflate_snappy_chunks`; `none` is an abort, or a loop that does not end. -/
def inflateSnappyChunksAt (raw out : Bytes) : Option (Except Text Bytes) :=
  inflateLoop snap (raw.length + 1) raw out

/-- `element`, with every slice that could abort. -/
def OperatorStreamElements.elementAt (es : OperatorStreamElements) (offset : Int64) :
    Option (Except Text Bytes) :=
  let len := es.stream.length
  if offset.toInt < 0 ∨ len < offset.toInt.toNat then
    some (.error ("offset ".toList ++ intText offset.toInt ++ " is outside the ".toList
      ++ natText len ++ "-byte stream".toList))
  else do
    let start := offset.toInt.toNat
    let raw ← Checked.slice es.stream start (es.stop start)
    if !es.compressed then some (.ok raw)
    else do
      let inflated ← inflateSnappyChunksAt snap raw []
      some (inflated.mapError fun e =>
        "Snappy chunks at offset ".toList ++ intText offset.toInt ++ ": ".toList ++ e)

theorem nextChunkAt_eq (raw : Bytes) : nextChunkAt raw = some (nextChunk raw) := by
  unfold nextChunkAt nextChunk
  rcases raw with _ | ⟨flag, _ | ⟨a, _ | ⟨b, _ | ⟨c, after⟩⟩⟩⟩
  · rfl
  · rfl
  · rfl
  · rfl
  · have hlong : ¬ (flag :: a :: b :: c :: after).length < 4 := by simp
    have hheader : Checked.slice (flag :: a :: b :: c :: after) 0 4 = some [flag, a, b, c] := by
      rw [Checked.slice_eq_some (by decide) (by simp)]
      rfl
    rw [if_neg hlong, hheader]
    dsimp only [Option.bind_eq_bind, Option.bind_some, List.getElem?_cons_zero,
      List.getElem?_cons_succ]
    generalize a.toNat ||| b.toNat <<< 8 ||| c.toNat <<< 16 = len
    by_cases hshort : after.length < len
    · rw [if_pos (by simp only [List.length_cons]; omega), if_pos hshort,
        Checked.sub_eq_some (by simp)]
      rfl
    · rw [if_neg (by simp only [List.length_cons]; omega), if_neg hshort,
        Checked.slice_eq_some (by omega) (by simp only [List.length_cons]; omega),
        Checked.slice_eq_some (by simp only [List.length_cons]; omega) le_rfl]
      have hdrop : (flag :: a :: b :: c :: after).drop (4 + len) = after.drop len := by
        rw [← List.drop_drop]
        rfl
      have hrest : (after.drop len).take ((flag :: a :: b :: c :: after).length - (4 + len))
          = after.drop len := List.take_of_length_le (by
        simp only [List.length_drop, List.length_cons]
        omega)
      rw [hdrop, hrest, Nat.add_sub_cancel_left]
      rfl

theorem chunkDataAt_eq (flag : UInt8) (body out : Bytes) :
    chunkDataAt snap flag body out = some (chunkData snap flag body out) := by
  unfold chunkDataAt chunkData
  by_cases hdata : flag = 0x00 ∨ flag = 0x01
  · rw [if_pos hdata, if_pos hdata]
    by_cases hshort : body.length < 5
    · rw [if_pos hshort, if_pos hshort]
    rw [if_neg hshort, if_neg hshort, Checked.slice_eq_some (by omega) le_rfl,
      List.take_of_length_le (by rw [List.length_drop])]
    dsimp only [Option.bind_eq_bind, Option.bind_some]
    by_cases hraw : flag = 0x01
    · rw [if_pos hraw, if_pos hraw]
    rw [if_neg hraw, if_neg hraw]
    rcases snap.decompressLen (body.drop 4) with e | n
    · rfl
    dsimp only [bind, Except.bind]
    by_cases hbig : n > 2 ^ 16
    · rw [if_pos hbig, if_pos hbig]
    have hbuffer : Checked.slice (out ++ List.replicate n 0) out.length (out.length + n)
        = some (List.replicate n 0) := by
      rw [Checked.slice_eq_some (by omega) (by simp), List.drop_left, Nat.add_sub_cancel_left,
        List.take_of_length_le (by simp)]
    rw [if_neg hbig, if_neg hbig, hbuffer]
    dsimp only [Option.bind]
    rw [List.length_replicate]
    cases snap.decompress (body.drop 4) n <;> rfl
  · rw [if_neg hdata, if_neg hdata]
    by_cases hid : flag = 0xFF ∧ body.length ≠ 6
    · rw [if_pos hid, if_pos hid]
    rw [if_neg hid, if_neg hid]
    by_cases hbad : 0x02 ≤ flag ∧ flag ≤ 0x7F
    · rw [if_pos hbad, if_pos hbad]
    · rw [if_neg hbad, if_neg hbad]

theorem inflateLoop_eq {fuel : Nat} {raw : Bytes} (hfuel : raw.length < fuel) (out : Bytes) :
    inflateLoop snap fuel raw out = some (inflateSnappyChunks snap raw out) := by
  induction fuel generalizing raw out with
  | zero => omega
  | succ fuel ih =>
    rw [inflateLoop]
    by_cases hnil : raw = []
    · rw [if_pos hnil, hnil, inflate_nil]
    rw [if_neg hnil, nextChunkAt_eq]
    dsimp only [Option.bind_eq_bind, Option.bind_some]
    rcases hchunk : nextChunk raw with e | ⟨flag, body, rest⟩
    · rw [inflate_error snap hnil hchunk]
    · have hlt := length_nextChunk hchunk
      dsimp only
      rw [inflate_chunk snap hchunk, chunkDataAt_eq]
      dsimp only [Option.bind_some]
      rcases chunkData snap flag body out with e | out₁
      · rfl
      · exact ih (by omega) out₁

/-- **No step of the inflation aborts, and it ends**, on every byte string. -/
theorem inflateSnappyChunksAt_eq (raw out : Bytes) :
    inflateSnappyChunksAt snap raw out = some (inflateSnappyChunks snap raw out) :=
  inflateLoop_eq snap (Nat.lt_succ_self _) out

theorem partitionPoint_gt {xs : List Nat} {start b : Nat}
    (h : xs[partitionPoint (· ≤ start) xs]? = some b) : start < b ∧ b ∈ xs := by
  induction xs with
  | nil => cases h
  | cons x xs ih =>
    by_cases hx : x ≤ start
    · have hpoint : partitionPoint (· ≤ start) (x :: xs) = partitionPoint (· ≤ start) xs + 1 := by
        simp [partitionPoint, hx]
      rw [hpoint, List.getElem?_cons_succ] at h
      obtain ⟨hlt, hmem⟩ := ih h
      exact ⟨hlt, List.mem_cons_of_mem x hmem⟩
    · have hpoint : partitionPoint (· ≤ start) (x :: xs) = 0 := by
        simp [partitionPoint, hx]
      rw [hpoint, List.getElem?_cons_zero, Option.some.injEq] at h
      subst h
      exact ⟨not_le.mp hx, List.mem_cons_self⟩

/-- **No step of cutting an element aborts**, on every stream and at every offset. -/
theorem elementAt_eq {stream : Bytes} {partitions : List PartitionOffsetEntry}
    {es : OperatorStreamElements} (hes : OperatorStreamElements.new stream partitions = .ok es)
    (offset : Int64) : es.elementAt snap offset = some (es.element snap offset) := by
  unfold OperatorStreamElements.elementAt OperatorStreamElements.element
  dsimp only
  by_cases hout : offset.toInt < 0 ∨ es.stream.length < offset.toInt.toNat
  · rw [if_pos hout, if_pos hout]
  have hstop : offset.toInt.toNat ≤ es.stop offset.toInt.toNat
      ∧ es.stop offset.toInt.toNat ≤ es.stream.length := by
    unfold OperatorStreamElements.stop
    rcases hb : es.boundaries[partitionPoint (· ≤ offset.toInt.toNat) es.boundaries]? with _ | b
    · exact ⟨by simp only [Option.getD_none]; omega, le_rfl⟩
    · obtain ⟨hlt, hmem⟩ := partitionPoint_gt hb
      have hle : b ≤ es.stream.length := by
        rw [(stream_new hes).1]
        rcases (mem_boundaries hes).mp hmem with rfl | ⟨hlt, -⟩
        · exact le_rfl
        · exact hlt.le
      exact ⟨hlt.le, hle⟩
  rw [if_neg hout, if_neg hout, Checked.slice_eq_some hstop.1 hstop.2]
  dsimp only [Option.bind_eq_bind, Option.bind_some]
  by_cases hraw : (!es.compressed) = true
  · rw [if_pos hraw, if_pos hraw]
  · rw [if_neg hraw, if_neg hraw, inflateSnappyChunksAt_eq]
    rfl

end Bounds

/-! ### Operator state -/

/-- The end of a stream is the place of an empty element. -/
theorem element_end {stream : Bytes} {partitions : List PartitionOffsetEntry}
    {es : OperatorStreamElements} (hes : OperatorStreamElements.new stream partitions = .ok es)
    (snap : Snappy) {offset : Int64} (hoffset : offset.toInt = stream.length) :
    es.element snap offset = .ok [] := by
  have hstart : offset.toInt.toNat = es.stream.length := by
    rw [(stream_new hes).1]
    omega
  unfold OperatorStreamElements.element
  dsimp only
  rw [if_neg (by omega), hstart, List.drop_length, List.take_nil, inflate_nil, ite_eq_left_iff]
  exact fun _ => rfl

/-- **Operator-state elements are cut exactly.**  At every listed start `element` gives the element
    that starts there: its bytes, or, when the stream is compressed, what its run inflates to, which
    is its part of what all runs inflate to.  Runs inflate one after the other.  Whatever the bytes
    and the offset, no index or slice is out of range, and the loop ends. -/
theorem operatorState_exact (snap : Snappy) {stream before : Bytes}
    {partitions : List PartitionOffsetEntry} {elems : List Bytes} {header : OperatorStreamHeader}
    (hheader : readOperatorStreamHeader stream = some header)
    (h : Laid stream partitions before elems) :
    ∃ es, OperatorStreamElements.new stream partitions = .ok es
      ∧ (header.usingStateCompression = false → ∀ pre e post (offset : Int64),
        elems = pre ++ e :: post → e ≠ [] → offset.toInt = (before ++ pre.flatten).length →
        es.element snap offset = .ok e)
      ∧ (header.usingStateCompression = true → ∀ datas,
        List.Forall₂ (fun run data => inflateSnappyChunks snap run [] = .ok data) elems datas →
        inflateSnappyChunks snap elems.flatten [] = .ok datas.flatten
        ∧ ∀ pre run post preDatas data postDatas (offset : Int64),
          elems = pre ++ run :: post → datas = preDatas ++ data :: postDatas →
          pre.length = preDatas.length → run ≠ [] →
          offset.toInt = (before ++ pre.flatten).length →
          es.element snap offset = .ok data
          ∧ (datas.flatten.drop preDatas.flatten.length).take data.length = data)
      ∧ (∀ offset : Int64, offset.toInt = stream.length → es.element snap offset = .ok [])
      ∧ (∀ offset, es.elementAt snap offset = some (es.element snap offset))
      ∧ (∀ a b, Framed a → Framed b → inflateSnappyChunks snap (a ++ b) []
        = (inflateSnappyChunks snap a []).bind fun x =>
          (inflateSnappyChunks snap b []).map fun y => x ++ y)
      ∧ ∀ raw out,
        inflateSnappyChunksAt snap raw out = some (inflateSnappyChunks snap raw out) := by
  obtain ⟨es, hes⟩ : ∃ es, OperatorStreamElements.new stream partitions = .ok es := by
    unfold OperatorStreamElements.new
    rw [hheader]
    exact ⟨_, rfl⟩
  obtain ⟨-, header', hheader', hflag⟩ := stream_new hes
  rw [hheader, Option.some.injEq] at hheader'
  subst hheader'
  refine ⟨es, hes, fun hraw pre e post offset helems hne hoffset => ?_,
    fun hcompressed datas hdatas => ⟨inflate_flatten snap hdatas, ?_⟩,
    fun offset hoffset => element_end hes snap hoffset, elementAt_eq snap hes,
    fun a b ha _ => inflate_append snap ha b, inflateSnappyChunksAt_eq snap⟩
  · rw [h.element_eq hes snap helems hne hoffset, hflag, hraw]
    rfl
  · intro pre run post preDatas data postDatas offset helems hsplit hlen hne hoffset
    -- each element inflates to its own data, the elements before it aside
    have hinflate : inflateSnappyChunks snap run [] = .ok data := by
      rw [hsplit] at hdatas
      have hrest := List.forall₂_drop_append elems preDatas (data :: postDatas) hdatas
      rw [helems, ← hlen, List.drop_left] at hrest
      exact (List.forall₂_cons.mp hrest).1
    refine ⟨?_, ?_⟩
    · rw [h.element_eq hes snap helems hne hoffset, hflag, hcompressed, hinflate]
      rfl
    · rw [hsplit, List.flatten_append, List.flatten_cons, List.drop_left, List.take_left]

/-- A decoder that takes nothing. -/
def noSnappy : Snappy := ⟨fun _ => .error [], fun _ _ => .error []⟩

/-- Two elements, the second one's start listed first. -/
theorem laid_two (before a b : Bytes) (first second : Int64) (hfirst : first.toInt = before.length)
    (hsecond : second.toInt = (before ++ a).length) :
    Laid (before ++ (a ++ b)) [⟨[], 0, [second]⟩, ⟨[], 0, [first]⟩] before [a, b] := by
  refine ⟨by simp, fun n => ⟨fun hn => ?_, ?_⟩⟩
  · have hlisted : n = second.toInt ∨ n = first.toInt := by simpa using hn
    rcases hlisted with rfl | rfl
    · exact ⟨[a], b, [], rfl, by simpa using hsecond⟩
    · exact ⟨[], a, [b], rfl, by simpa using hfirst⟩
  · rintro ⟨_ | ⟨x, _ | ⟨y, pre⟩⟩, e, post, helems, rfl⟩
    · simp [hfirst]
    · obtain ⟨rfl, -⟩ := List.cons.inj helems
      simp [hsecond]
    · simp at helems

/-- A run of one chunk. -/
theorem inflate_single (snap : Snappy) {raw body data : Bytes} {flag : UInt8}
    (h : nextChunk raw = .ok (flag, body, [])) (hdata : chunkData snap flag body [] = .ok data) :
    inflateSnappyChunks snap raw [] = .ok data := by
  rw [inflate_chunk snap h, hdata]
  exact inflate_nil snap data

/-- Two states, the second one's element written first; and the same, in chunks. -/
theorem operatorState_exact_sample :
    (∃ es, OperatorStreamElements.new ([0, 0, 0, 6, 0] ++ ([97, 97] ++ [66]))
        [⟨[], 0, [7]⟩, ⟨[], 0, [5]⟩] = .ok es
      ∧ es.element noSnappy 5 = .ok [97, 97] ∧ es.element noSnappy 7 = .ok [66])
    ∧ ∃ es, OperatorStreamElements.new
        ([0, 0, 0, 6, 1] ++ ([1, 6, 0, 0, 0, 0, 0, 0, 97, 97] ++ [1, 5, 0, 0, 0, 0, 0, 0, 66]))
        [⟨[], 0, [15]⟩, ⟨[], 0, [5]⟩] = .ok es
      ∧ es.element noSnappy 5 = .ok [97, 97] ∧ es.element noSnappy 15 = .ok [66] := by
  constructor
  · have hheader : readOperatorStreamHeader ([0, 0, 0, 6, 0] ++ ([97, 97] ++ [66]))
        = some ⟨6, false⟩ := by decide
    obtain ⟨es, hes, hraw, -⟩ :=
      operatorState_exact noSnappy hheader (laid_two [0, 0, 0, 6, 0] [97, 97] [66] 5 7 rfl rfl)
    exact ⟨es, hes, hraw rfl [] [97, 97] [[66]] 5 rfl (by decide) rfl,
      hraw rfl [[97, 97]] [66] [] 7 rfl (by decide) rfl⟩
  · obtain ⟨header, hheader, hcompressed⟩ := readOperatorStreamHeader_compressed_iff.mpr
      ⟨1, [1, 6, 0, 0, 0, 0, 0, 0, 97, 97] ++ [1, 5, 0, 0, 0, 0, 0, 0, 66], rfl, by decide⟩
    obtain ⟨es, hes, -, hchunks, -⟩ := operatorState_exact noSnappy hheader
      (laid_two [0, 0, 0, 6, 1] [1, 6, 0, 0, 0, 0, 0, 0, 97, 97] [1, 5, 0, 0, 0, 0, 0, 0, 66] 5 15
        rfl rfl)
    have hfirst : inflateSnappyChunks noSnappy [1, 6, 0, 0, 0, 0, 0, 0, 97, 97] [] = .ok [97, 97] :=
      @inflate_single noSnappy _ [0, 0, 0, 0, 97, 97] _ 1 rfl rfl
    have hsecond : inflateSnappyChunks noSnappy [1, 5, 0, 0, 0, 0, 0, 0, 66] [] = .ok [66] :=
      @inflate_single noSnappy _ [0, 0, 0, 0, 66] _ 1 rfl rfl
    obtain ⟨-, hcut⟩ := hchunks hcompressed [[97, 97], [66]] (.cons hfirst (.cons hsecond .nil))
    exact ⟨es, hes, (hcut [] _ _ [] [97, 97] [[66]] 5 rfl rfl rfl (by decide) rfl).1,
      (hcut [_] _ [] [[97, 97]] [66] [] 15 rfl rfl rfl (by decide) rfl).1⟩

end FlinkExplorer
