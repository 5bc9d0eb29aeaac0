import Mathlib.Data.List.Nodup
import FlinkExplorer.Reader.Block

namespace FlinkExplorer

open Lib

/-!
# `reader/mod.rs` — the cache of parsed blocks

`BlockCache` holds blocks by key, least recently used evicted first, within a capacity in bytes;
a block heavier than the whole capacity is kept alone.

* `BlockCache.Good` — what holds of every cache that `get` and `insert` made from an empty one:
  `used` is the weight held, and it is within the capacity unless one block is held alone;
* `BlockCache.mem_insert` — what is held after an insertion: the block inserted, under its key, and
  blocks held before under others;
* `BlockCache.run_good`, `BlockCache.run_latest` — over a whole run, what is held is what was
  inserted last.
-/

/-- A block parsed and grouped by key. -/
structure GroupedBlock where
  keys : List RawKey
  defect : Option Text
  inflatedLen : Nat
  weight : Nat

/-- `(operator index, subtask state position, absolute key-group)`. -/
abbrev BlockKey := Nat × Nat × Int

/-- A block held, and when it was last used. -/
structure HeldBlock where
  key : BlockKey
  block : GroupedBlock
  tick : Nat

/-- Parsed blocks, bounded in bytes.  A `HashMap`, of which only the block of a key and the least
    tick are asked, is the list of its entries. -/
structure BlockCache where
  capacity : Nat
  used : Nat
  tick : Nat
  blocks : List HeldBlock

namespace BlockCache

/-- An empty cache. -/
def empty (capacity : Nat) : BlockCache := ⟨capacity, 0, 0, []⟩

/-- The block of a key. -/
def find (c : BlockCache) (key : BlockKey) : Option GroupedBlock :=
  (c.blocks.find? fun b => b.key = key).map (·.block)

/-- Look a block up, and note its use. -/
def get (c : BlockCache) (key : BlockKey) : Option GroupedBlock × BlockCache :=
  let tick := c.tick + 1
  (c.find key, { c with
    tick := tick
    blocks := c.blocks.map fun b => if b.key = key then { b with tick := tick } else b })

/-- `HashMap::remove`, and the weight given back. -/
def remove (c : BlockCache) (key : BlockKey) : BlockCache :=
  match c.find key with
  | none => c
  | some old =>
    { c with used := c.used - old.weight, blocks := c.blocks.filter fun b => b.key ≠ key }

/-- Of two blocks the one used less recently. -/
def older (a b : HeldBlock) : HeldBlock := if b.tick < a.tick then b else a

/-- The block used least recently. -/
def oldest (c : BlockCache) : Option HeldBlock :=
  match c.blocks with
  | [] => none
  | b :: blocks => some (blocks.foldl older b)

/-- Evict until `weight` more fits, or nothing is left.  Each turn evicts a block, so `turns` is how
    many are held. -/
def makeRoom (weight : Nat) : Nat → BlockCache → BlockCache
  | 0, c => c
  | turns + 1, c =>
    if c.blocks ≠ [] ∧ c.used + weight > c.capacity then
      match c.oldest with
      | none => c
      | some b => makeRoom weight turns (c.remove b.key)
    else c

/-- Hold a block, in place of the one its key had. -/
def insert (c : BlockCache) (key : BlockKey) (block : GroupedBlock) : BlockCache :=
  if c.capacity = 0 then c
  else
    let c := c.remove key
    let c := makeRoom block.weight c.blocks.length c
    let tick := c.tick + 1
    { c with tick := tick, used := c.used + block.weight, blocks := c.blocks ++ [⟨key, block, tick⟩] }

/-! ### What is held -/

/-- The weight of the blocks held. -/
def held (c : BlockCache) : Nat := (c.blocks.map (·.block.weight)).sum

/-- The keys are told apart, `used` is the weight held, and it is within the capacity unless one
    block is held alone. -/
structure Good (c : BlockCache) : Prop where
  nodup : (c.blocks.map (·.key)).Nodup
  used : c.used = c.held
  bounded : c.used ≤ c.capacity ∨ c.blocks.length = 1
  disabled : c.capacity = 0 → c.blocks = []

theorem good_empty (capacity : Nat) : (empty capacity).Good :=
  ⟨List.nodup_nil, rfl, .inl (Nat.zero_le _), fun _ => rfl⟩

theorem find_eq_some {c : BlockCache} {key : BlockKey} {block : GroupedBlock}
    (h : c.find key = some block) : ∃ b ∈ c.blocks, b.key = key ∧ b.block = block := by
  unfold find at h
  obtain ⟨b, hb, hblock⟩ := Option.map_eq_some_iff.mp h
  exact ⟨b, List.mem_of_find?_eq_some hb, by simpa using List.find?_some hb, hblock⟩

theorem find_of_mem {c : BlockCache} (hc : (c.blocks.map (·.key)).Nodup) {b : HeldBlock}
    (hb : b ∈ c.blocks) : c.find b.key = some b.block := by
  unfold find
  cases hfind : c.blocks.find? (fun b' => b'.key = b.key) with
  | none => simpa using List.find?_eq_none.mp hfind b hb
  | some b' =>
    have hkey : b'.key = b.key := by simpa using List.find?_some hfind
    have hsame : b' = b :=
      List.inj_on_of_nodup_map hc (List.mem_of_find?_eq_some hfind) hb hkey
    rw [hsame]
    rfl

/-! ### `get` -/

theorem get_fst (c : BlockCache) (key : BlockKey) : (c.get key).1 = c.find key := rfl

/-- Noting a use changes no key and no block. -/
theorem get_blocks (c : BlockCache) (key : BlockKey) {α : Type} (f : BlockKey → GroupedBlock → α) :
    ((c.get key).2.blocks.map fun b => f b.key b.block) = c.blocks.map fun b => f b.key b.block := by
  show (c.blocks.map _).map _ = _
  rw [List.map_map]
  refine List.map_congr_left fun b _ => ?_
  by_cases hb : b.key = key
  · simp [hb]
  · simp [hb]

theorem Good.get {c : BlockCache} (hc : c.Good) (key : BlockKey) : (c.get key).2.Good := by
  have hlength : (c.get key).2.blocks.length = c.blocks.length := by
    show (c.blocks.map _).length = _
    rw [List.length_map]
  refine ⟨?_, ?_, ?_, fun h => ?_⟩
  · exact (get_blocks c key fun k _ => k) ▸ hc.nodup
  · exact hc.used.trans (congrArg List.sum (get_blocks c key fun _ b => b.weight)).symm
  · rw [hlength]
    exact hc.bounded
  · rw [← List.length_eq_zero_iff, hlength, hc.disabled h]
    rfl

theorem mem_get {c : BlockCache} {key : BlockKey} {x : HeldBlock} (hx : x ∈ (c.get key).2.blocks) :
    ∃ b ∈ c.blocks, b.key = x.key ∧ b.block = x.block := by
  have hmem := List.mem_map_of_mem (f := fun b : HeldBlock => (b.key, b.block)) hx
  rw [get_blocks c key fun k b => (k, b)] at hmem
  obtain ⟨b, hb, heq⟩ := List.mem_map.mp hmem
  exact ⟨b, hb, congrArg Prod.fst heq, congrArg Prod.snd heq⟩

/-! ### Removing and making room -/

theorem sum_remove {blocks : List HeldBlock} (hnodup : (blocks.map (·.key)).Nodup) {b : HeldBlock}
    (hb : b ∈ blocks) :
    ((blocks.filter fun b' => b'.key ≠ b.key).map (·.block.weight)).sum + b.block.weight
      = (blocks.map (·.block.weight)).sum := by
  induction blocks with
  | nil => simp at hb
  | cons b' blocks ih =>
    obtain ⟨hfresh, hnodup⟩ := List.nodup_cons.mp hnodup
    rcases List.mem_cons.mp hb with rfl | hb
    · -- No other block has its key.
      have hall : blocks.filter (fun b' => b'.key ≠ b.key) = blocks := by
        rw [List.filter_eq_self]
        intro b' hb'
        simpa using fun h : b'.key = b.key => hfresh (List.mem_map.mpr ⟨b', hb', h⟩)
      rw [List.filter_cons_of_neg (by simp), hall, List.map_cons, List.sum_cons]
      omega
    · have hne : b'.key ≠ b.key := fun h => hfresh (List.mem_map.mpr ⟨b, hb, h.symm⟩)
      have hrest := ih hnodup hb
      rw [List.filter_cons_of_pos (by simpa using hne), List.map_cons, List.sum_cons, List.map_cons,
        List.sum_cons]
      omega

theorem remove_of_mem {c : BlockCache} (hc : (c.blocks.map (·.key)).Nodup) {b : HeldBlock}
    (hb : b ∈ c.blocks) :
    c.remove b.key = { c with
      used := c.used - b.block.weight, blocks := c.blocks.filter fun b' => b'.key ≠ b.key } := by
  rw [remove, find_of_mem hc hb]

/-- What removing leaves: the blocks of the other keys. -/
theorem remove_blocks (c : BlockCache) (key : BlockKey) :
    (c.remove key).blocks = c.blocks.filter fun b => b.key ≠ key := by
  unfold remove
  cases hfind : c.find key with
  | some old => rfl
  | none =>
    symm
    rw [List.filter_eq_self]
    intro b hb
    have hnone := List.find?_eq_none.mp (Option.map_eq_none_iff.mp hfind) b hb
    simpa using hnone

theorem remove_capacity (c : BlockCache) (key : BlockKey) : (c.remove key).capacity = c.capacity := by
  unfold remove
  cases c.find key <;> rfl

/-- Removing gives back the weight of what it removes. -/
theorem remove_used {c : BlockCache} (hc : (c.blocks.map (·.key)).Nodup) (hused : c.used = c.held)
    (key : BlockKey) : (c.remove key).used = (c.remove key).held := by
  unfold held
  rw [remove_blocks]
  cases hfind : c.find key with
  | none =>
    have hall : c.blocks.filter (fun b => b.key ≠ key) = c.blocks := by
      have h := remove_blocks c key
      rw [← h, remove, hfind]
    rw [hall, remove, hfind]
    exact hused
  | some old =>
    obtain ⟨b, hb, rfl, rfl⟩ := find_eq_some hfind
    rw [remove_of_mem hc hb]
    have hsum := sum_remove hc hb
    unfold held at hused
    simp only
    omega

theorem nodup_remove {c : BlockCache} (hc : (c.blocks.map (·.key)).Nodup) (key : BlockKey) :
    ((c.remove key).blocks.map (·.key)).Nodup := by
  rw [remove_blocks]
  exact hc.sublist (List.filter_sublist.map _)

theorem foldl_older_mem (blocks : List HeldBlock) (a : HeldBlock) :
    blocks.foldl older a ∈ a :: blocks := by
  induction blocks generalizing a with
  | nil => exact List.mem_cons_self
  | cons b blocks ih =>
    rw [List.foldl_cons]
    have hmem := ih (older a b)
    rcases List.mem_cons.mp hmem with heq | hmem
    · rw [heq]
      unfold older
      by_cases hlt : b.tick < a.tick
      · rw [if_pos hlt]
        exact List.mem_cons_of_mem _ List.mem_cons_self
      · rw [if_neg hlt]
        exact List.mem_cons_self
    · exact List.mem_cons_of_mem _ (List.mem_cons_of_mem _ hmem)

theorem oldest_eq_some {c : BlockCache} (h : c.blocks ≠ []) :
    ∃ b ∈ c.blocks, c.oldest = some b := by
  unfold oldest
  cases hblocks : c.blocks with
  | nil => exact absurd hblocks h
  | cons b blocks => exact ⟨_, foldl_older_mem blocks b, rfl⟩

/-- Making room: what is left are blocks held before, and either the weight fits beside them or
    none is left. -/
theorem makeRoom_spec (weight turns : Nat) {c : BlockCache} (hc : (c.blocks.map (·.key)).Nodup)
    (hused : c.used = c.held) (hturns : c.blocks.length ≤ turns) :
    (makeRoom weight turns c).blocks.Sublist c.blocks
    ∧ (makeRoom weight turns c).capacity = c.capacity
    ∧ (makeRoom weight turns c).used = (makeRoom weight turns c).held
    ∧ ((makeRoom weight turns c).blocks = []
      ∨ (makeRoom weight turns c).used + weight ≤ c.capacity) := by
  induction turns generalizing c with
  | zero =>
    have hnil : c.blocks = [] := List.length_eq_zero_iff.mp (Nat.le_zero.mp hturns)
    exact ⟨List.Sublist.refl _, rfl, hused, .inl hnil⟩
  | succ turns ih =>
    by_cases hfull : c.blocks ≠ [] ∧ c.used + weight > c.capacity
    · obtain ⟨b, hb, hold⟩ := oldest_eq_some hfull.1
      have hroom : makeRoom weight (turns + 1) c = makeRoom weight turns (c.remove b.key) := by
        rw [makeRoom, if_pos hfull, hold]
      have hshorter : (c.remove b.key).blocks.length < c.blocks.length := by
        rw [remove_blocks]
        exact List.length_filter_lt_length_iff_exists.mpr ⟨b, hb, by simp⟩
      obtain ⟨hsub, hcap, hused', hfits⟩ := ih (nodup_remove hc b.key)
        (remove_used hc hused b.key) (by omega)
      rw [hroom]
      rw [remove_capacity] at hcap hfits
      refine ⟨hsub.trans ?_, hcap, hused', hfits⟩
      rw [remove_blocks]
      exact List.filter_sublist
    · have hroom : makeRoom weight (turns + 1) c = c := by rw [makeRoom, if_neg hfull]
      rw [hroom]
      refine ⟨List.Sublist.refl _, rfl, hused, ?_⟩
      by_cases hnil : c.blocks = []
      · exact .inl hnil
      · right
        by_contra hover
        exact hfull ⟨hnil, by omega⟩

/-! ### `insert` -/

theorem insert_disabled {c : BlockCache} (h : c.capacity = 0) (key : BlockKey)
    (block : GroupedBlock) : c.insert key block = c := by rw [insert, if_pos h]

/-- What is held after an insertion, in a cache that holds anything. -/
theorem insert_spec {c : BlockCache} (hc : c.Good) (hcap : c.capacity ≠ 0) (key : BlockKey)
    (block : GroupedBlock) :
    ∃ kept tick, kept.Sublist (c.blocks.filter fun b => b.key ≠ key)
      ∧ (c.insert key block).blocks = kept ++ [⟨key, block, tick⟩]
      ∧ (c.insert key block).capacity = c.capacity
      ∧ (c.insert key block).used = (kept.map (·.block.weight)).sum + block.weight
      ∧ (kept = [] ∨ (c.insert key block).used ≤ c.capacity) := by
  obtain ⟨hsub, hcapacity, hused, hfits⟩ := makeRoom_spec block.weight
    (c.remove key).blocks.length (nodup_remove hc.nodup key) (remove_used hc.nodup hc.used key)
    le_rfl
  rw [remove_capacity] at hcapacity hfits
  rw [insert, if_neg hcap, ← remove_blocks]
  exact ⟨(makeRoom block.weight (c.remove key).blocks.length (c.remove key)).blocks, _, hsub, rfl,
    hcapacity, congrArg (· + block.weight) hused, hfits⟩

theorem Good.insert {c : BlockCache} (hc : c.Good) (key : BlockKey) (block : GroupedBlock) :
    (c.insert key block).Good := by
  by_cases hcap : c.capacity = 0
  · rw [insert_disabled hcap]
    exact hc
  · obtain ⟨kept, tick, hsub, hblocks, hcapacity, hused, hfits⟩ := insert_spec hc hcap key block
    refine ⟨?_, ?_, ?_, fun h => absurd (hcapacity ▸ h) hcap⟩
    · rw [hblocks, List.map_append, List.nodup_append]
      refine ⟨hc.nodup.sublist ((hsub.trans List.filter_sublist).map _), by simp, ?_⟩
      intro k hk k' hk'
      obtain ⟨b, hb, rfl⟩ := List.mem_map.mp hk
      have hne : b.key ≠ key := by simpa using (List.mem_filter.mp (hsub.mem hb)).2
      rw [List.map_singleton, List.mem_singleton] at hk'
      rw [hk']
      exact hne
    · rw [held, hblocks, hused, List.map_append, List.sum_append]
      simp
    · rw [hblocks, hcapacity]
      rcases hfits with hnil | hfits
      · right
        rw [hnil]
        rfl
      · exact .inl hfits

/-- What is held after an insertion is the block inserted, or was held under another key. -/
theorem mem_insert {c : BlockCache} (hc : c.Good) {key : BlockKey} {block : GroupedBlock}
    {x : HeldBlock} (hx : x ∈ (c.insert key block).blocks) :
    (x.key = key ∧ x.block = block) ∨ (x.key ≠ key ∧ x ∈ c.blocks) := by
  by_cases hcap : c.capacity = 0
  · rw [insert_disabled hcap, hc.disabled hcap] at hx
    exact absurd hx List.not_mem_nil
  · obtain ⟨kept, tick, hsub, hblocks, -⟩ := insert_spec hc hcap key block
    rw [hblocks] at hx
    rcases List.mem_append.mp hx with hx | hx
    · obtain ⟨hmem, hne⟩ := List.mem_filter.mp (hsub.mem hx)
      exact .inr ⟨by simpa using hne, hmem⟩
    · rw [List.mem_singleton.mp hx]
      exact .inl ⟨rfl, rfl⟩

/-! ### Runs -/

/-- A call on the cache. -/
inductive Call
  | get (key : BlockKey)
  | insert (key : BlockKey) (block : GroupedBlock)

/-- The cache after a call. -/
def after (c : BlockCache) : Call → BlockCache
  | .get key => (c.get key).2
  | .insert key block => c.insert key block

/-- The cache after a list of calls. -/
def run (c : BlockCache) (calls : List Call) : BlockCache := calls.foldl after c

/-- The block a list of calls inserted last under a key. -/
def lastInserted (calls : List Call) (key : BlockKey) : Option GroupedBlock :=
  calls.foldl (fun last call =>
    match call with
    | .get _ => last
    | .insert key' block => if key' = key then some block else last) none

theorem Good.after {c : BlockCache} (hc : c.Good) (call : Call) : (c.after call).Good := by
  cases call with
  | get key => exact hc.get key
  | insert key block => exact hc.insert key block

theorem run_append (c : BlockCache) (calls : List Call) (call : Call) :
    c.run (calls ++ [call]) = (c.run calls).after call := by
  simp [run]

/-- Every cache that calls made from an empty one is good. -/
theorem run_good (capacity : Nat) (calls : List Call) : ((empty capacity).run calls).Good := by
  induction calls using List.reverseRecOn with
  | nil => exact good_empty capacity
  | append_singleton calls call ih =>
    rw [run_append]
    exact ih.after call

theorem capacity_after {c : BlockCache} (hc : c.Good) (call : Call) :
    (c.after call).capacity = c.capacity := by
  cases call with
  | get key => rfl
  | insert key block =>
    by_cases hcap : c.capacity = 0
    · rw [after, insert_disabled hcap]
    · obtain ⟨-, -, -, -, hcapacity, -⟩ := insert_spec hc hcap key block
      exact hcapacity

theorem run_capacity (capacity : Nat) (calls : List Call) :
    ((empty capacity).run calls).capacity = capacity := by
  induction calls using List.reverseRecOn with
  | nil => rfl
  | append_singleton calls call ih =>
    rw [run_append, capacity_after (run_good capacity calls)]
    exact ih

/-- What is held is what was inserted last. -/
theorem run_latest (capacity : Nat) (calls : List Call) {x : HeldBlock}
    (hx : x ∈ ((empty capacity).run calls).blocks) : lastInserted calls x.key = some x.block := by
  induction calls using List.reverseRecOn generalizing x with
  | nil => exact absurd hx List.not_mem_nil
  | append_singleton calls call ih =>
    rw [run_append] at hx
    rw [lastInserted, List.foldl_append]
    cases call with
    | get key =>
      obtain ⟨b, hb, hkey, hblock⟩ := mem_get hx
      rw [← hkey, ← hblock]
      exact ih hb
    | insert key block =>
      rcases mem_insert (run_good capacity calls) hx with ⟨rfl, rfl⟩ | ⟨hne, hmem⟩
      · exact if_pos rfl
      · exact (if_neg (Ne.symm hne)).trans (ih hmem)

end BlockCache

end FlinkExplorer
