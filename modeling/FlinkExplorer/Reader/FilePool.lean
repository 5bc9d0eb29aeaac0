import Mathlib.Data.List.Perm.Basic
import Mathlib.Data.List.Perm.Subperm
import Mathlib.Logic.Relation
import FlinkExplorer.Lib.Text

namespace FlinkExplorer

open Lib

/-!
# `reader/source.rs` — the pool of open files

Readers share a few open files.  `FilePool::get` looks a path up under the lock, opens the file
without it when the pool has none, and takes the lock again to put it in: others may have come in
between.  `PoolStep` is one such part of one call, and a run is any order of parts of any calls.

Two paths are the same when their components are; `opened` says which handles opening a path gives.
-/

variable {Path File : Type}

/-- An open file: its path, its handle, its last use. -/
structure OpenFile (Path File : Type) where
  path : Path
  handle : File
  lastUse : UInt64

/-- The files currently open, and the clock of their uses. -/
structure FilePool (Path File : Type) where
  capacity : Nat
  tick : UInt64
  files : List (OpenFile Path File)
  capacity_pos : 0 < capacity

namespace FilePool

/-- `FilePool::new`. -/
def new (capacity : Nat) : FilePool Path File := ⟨max capacity 1, 0, [], by omega⟩

/-- The handle of the first entry of a path, and the entries with its use written down. -/
def touch [DecidableEq Path] (path : Path) (tick : UInt64) :
    List (OpenFile Path File) → Option (File × List (OpenFile Path File))
  | [] => none
  | e :: es =>
    if e.path = path then some (e.handle, { e with lastUse := tick } :: es)
    else (touch path tick es).map fun (f, es) => (f, e :: es)

/-- The index of the least recently used entry, the first of several. -/
def oldest : List (OpenFile Path File) → Nat
  | [] => 0
  | e :: es =>
    match es[oldest es]? with
    | some e' => if e'.lastUse < e.lastUse then oldest es + 1 else 0
    | none => 0

/-- `Vec::swap_remove`: the last entry takes the place of the removed one. -/
def swapRemove {α : Type} (i : Nat) (xs : List α) : List α :=
  match xs.getLast? with
  | some x => (xs.set i x).dropLast
  | none => []

/-- Close files until there is room for another one; `fuel` is the number of files. -/
def makeRoom (capacity : Nat) : Nat → List (OpenFile Path File) → List (OpenFile Path File)
  | 0, files => files
  | fuel + 1, files =>
    if files.length ≥ capacity then makeRoom capacity fuel (swapRemove (oldest files) files)
    else files

variable [DecidableEq Path] (pool : FilePool Path File)

/-- The first critical section of `get`. -/
def lookUp (path : Path) : Option File × FilePool Path File :=
  let tick := pool.tick + 1
  match touch path tick pool.files with
  | some (f, files) => (some f, { pool with tick, files })
  | none => (none, { pool with tick })

/-- The second critical section: the file was opened in between. -/
def insert (path : Path) (file : File) : File × FilePool Path File :=
  let tick := pool.tick + 1
  match touch path tick pool.files with
  | some (f, files) => (f, { pool with tick, files })
  | none =>
    let room := makeRoom pool.capacity pool.files.length pool.files
    (file, { pool with tick, files := room ++ [⟨path, file, tick⟩] })

end FilePool

/-! ### Calls -/

/-- How far a call of `get` is. -/
inductive PoolCall (Path File : Type)
  | looking (path : Path)
  | opening (path : Path)
  | inserting (path : Path) (file : File)
  | returned (path : Path) (result : Except Text File)

/-- A pool and the calls on it. -/
structure PoolState (Path File : Type) where
  pool : FilePool Path File
  calls : List (PoolCall Path File)

namespace PoolState

variable [DecidableEq Path] (s : PoolState Path File)

/-- Call `i` comes out of the first section. -/
def looked (i : Nat) (path : Path) : PoolState Path File where
  pool := (s.pool.lookUp path).2
  calls := s.calls.set i <|
    match (s.pool.lookUp path).1 with
    | some f => .returned path (.ok f)
    | none => .opening path

/-- Call `i` comes out of the second section. -/
def inserted (i : Nat) (path : Path) (file : File) : PoolState Path File where
  pool := (s.pool.insert path file).2
  calls := s.calls.set i (.returned path (.ok (s.pool.insert path file).1))

end PoolState

/-- One part of one call.  A section whose lock is poisoned is passed by. -/
inductive PoolStep [DecidableEq Path] (opened : Path → File → Prop) (s : PoolState Path File) :
    PoolState Path File → Prop
  | call (path : Path) : PoolStep opened s { s with calls := s.calls ++ [.looking path] }
  | look (i : Nat) (path : Path) (h : s.calls[i]? = some (.looking path)) :
      PoolStep opened s (s.looked i path)
  | lookPoisoned (i : Nat) (path : Path) (h : s.calls[i]? = some (.looking path)) :
      PoolStep opened s { s with calls := s.calls.set i (.opening path) }
  | opens (i : Nat) (path : Path) (file : File) (h : s.calls[i]? = some (.opening path))
      (hfile : opened path file) :
      PoolStep opened s { s with calls := s.calls.set i (.inserting path file) }
  | openFails (i : Nat) (path : Path) (error : Text) (h : s.calls[i]? = some (.opening path)) :
      PoolStep opened s { s with calls := s.calls.set i (.returned path (.error error)) }
  | inserts (i : Nat) (path : Path) (file : File) (h : s.calls[i]? = some (.inserting path file)) :
      PoolStep opened s (s.inserted i path file)
  | insertPoisoned (i : Nat) (path : Path) (file : File)
      (h : s.calls[i]? = some (.inserting path file)) :
      PoolStep opened s { s with calls := s.calls.set i (.returned path (.ok file)) }

/-! ### What a section keeps -/

/-- What an entry is about, its use left out. -/
def OpenFile.entry (e : OpenFile Path File) : Path × File := (e.path, e.handle)

namespace FilePool

theorem touch_eq_some [DecidableEq Path] {path : Path} {tick : UInt64}
    {es es' : List (OpenFile Path File)} {f : File} (h : touch path tick es = some (f, es')) :
    es'.map OpenFile.entry = es.map OpenFile.entry ∧ (path, f) ∈ es.map OpenFile.entry := by
  induction es generalizing es' with
  | nil => cases h
  | cons e es ih =>
    unfold touch at h
    by_cases heq : e.path = path
    · rw [if_pos heq] at h
      obtain ⟨rfl, rfl⟩ := Prod.mk.inj (Option.some.inj h)
      subst heq
      exact ⟨rfl, List.mem_cons_self⟩
    · rw [if_neg heq] at h
      obtain ⟨⟨g, tail⟩, htail, hpair⟩ := Option.map_eq_some_iff.mp h
      obtain ⟨rfl, rfl⟩ := Prod.mk.inj hpair
      obtain ⟨hentries, hfound⟩ := ih htail
      rw [List.map_cons, List.map_cons, hentries]
      exact ⟨rfl, List.mem_cons_of_mem e.entry hfound⟩

theorem touch_eq_none [DecidableEq Path] {path : Path} {tick : UInt64}
    {es : List (OpenFile Path File)} (h : touch path tick es = none) :
    path ∉ es.map OpenFile.path := by
  induction es with
  | nil => exact List.not_mem_nil
  | cons e es ih =>
    unfold touch at h
    by_cases heq : e.path = path
    · rw [if_pos heq] at h
      cases h
    · rw [if_neg heq] at h
      rw [List.map_cons, List.mem_cons]
      rintro (hfirst | hlater)
      · exact heq hfirst.symm
      · exact ih (Option.map_eq_none_iff.mp h) hlater

theorem oldest_lt {es : List (OpenFile Path File)} (h : es ≠ []) : oldest es < es.length := by
  induction es with
  | nil => exact absurd rfl h
  | cons e es ih =>
    unfold oldest
    cases hget : es[oldest es]? with
    | none => exact Nat.succ_pos es.length
    | some e' =>
      obtain ⟨hlt, -⟩ := List.getElem?_eq_some_iff.mp hget
      show (if e'.lastUse < e.lastUse then oldest es + 1 else 0) < es.length + 1
      by_cases hless : e'.lastUse < e.lastUse
      · rw [if_pos hless]
        omega
      · rw [if_neg hless]
        omega

/-- `swapRemove` takes one entry out; the others stay, in some order. -/
theorem swapRemove_perm {α : Type} {i : Nat} {xs : List α} (hi : i < xs.length) :
    ∃ x, (x :: swapRemove i xs).Perm xs := by
  obtain rfl | ⟨ys, x, rfl⟩ := List.eq_nil_or_concat xs
  · exact absurd hi (Nat.not_lt_zero i)
  · rw [List.concat_eq_append] at hi ⊢
    have hremove : swapRemove i (ys ++ [x]) = ((ys ++ [x]).set i x).dropLast := by
      rw [swapRemove, List.getLast?_concat]
    rw [hremove]
    rcases Nat.lt_or_ge i ys.length with hlt | hge
    · -- The last entry goes to place `i`.
      refine ⟨ys[i], ?_⟩
      rw [List.set_append_left i x hlt, List.dropLast_concat]
      have hset : (ys.set i x).Perm (x :: ys.eraseIdx i) := List.set_perm_cons_eraseIdx hlt x
      have hget : (ys[i] :: ys.eraseIdx i).Perm ys := List.getElem_cons_eraseIdx_perm hlt
      have hswap : (ys[i] :: ys.set i x).Perm (x :: ys) :=
        (hset.cons ys[i]).trans ((List.Perm.swap x ys[i] _).trans (hget.cons x))
      exact hswap.trans (List.perm_append_singleton x ys).symm
    · -- The last entry is the one taken out.
      have hlast : i = ys.length := by
        rw [List.length_append, List.length_singleton] at hi
        omega
      refine ⟨x, ?_⟩
      rw [List.set_append_right i x hge, hlast, Nat.sub_self, List.set_cons_zero,
        List.dropLast_concat]
      exact (List.perm_append_singleton x ys).symm

/-- With fuel for every file there is room for one more, and no file has come in. -/
theorem makeRoom_spec {capacity : Nat} (hcapacity : 0 < capacity) {fuel : Nat}
    {files : List (OpenFile Path File)} (hfuel : files.length ≤ fuel) :
    (makeRoom capacity fuel files).length < capacity
      ∧ (makeRoom capacity fuel files).Subperm files := by
  induction fuel generalizing files with
  | zero =>
    refine ⟨?_, List.Subperm.refl _⟩
    show files.length < capacity
    omega
  | succ fuel ih =>
    unfold makeRoom
    by_cases hfull : files.length ≥ capacity
    · rw [if_pos hfull]
      have hne : files ≠ [] := List.ne_nil_of_length_pos (by omega)
      obtain ⟨e, hperm⟩ := swapRemove_perm (oldest_lt hne)
      have hlength := hperm.length_eq
      rw [List.length_cons] at hlength
      have hfewer : (swapRemove (oldest files) files).length ≤ fuel := by omega
      obtain ⟨hroom, hsub⟩ := ih hfewer
      exact ⟨hroom, hsub.trans (List.Subperm.cons_self.trans hperm.subperm)⟩
    · rw [if_neg hfull]
      exact ⟨not_le.mp hfull, List.Subperm.refl _⟩

/-- What holds of a pool between any two sections. -/
structure Good (opened : Path → File → Prop) (pool : FilePool Path File) : Prop where
  bounded : pool.files.length ≤ pool.capacity
  nodup : (pool.files.map OpenFile.path).Nodup
  named : ∀ path file, (path, file) ∈ pool.files.map OpenFile.entry → opened path file

variable {opened : Path → File → Prop} {pool : FilePool Path File}

theorem good_new (capacity : Nat) : Good opened (new capacity : FilePool Path File) where
  bounded := Nat.zero_le _
  nodup := List.nodup_nil
  named _ _ h := absurd h List.not_mem_nil

/-- Writing a use down changes neither the paths nor the handles. -/
theorem Good.touched (h : pool.Good opened) {files : List (OpenFile Path File)}
    (hfiles : files.map OpenFile.entry = pool.files.map OpenFile.entry) (tick : UInt64) :
    Good opened { pool with tick, files } where
  bounded := by
    have hlength := congrArg List.length hfiles
    rw [List.length_map, List.length_map] at hlength
    exact hlength.le.trans h.bounded
  nodup := by
    have hpaths := congrArg (List.map Prod.fst) hfiles
    rw [List.map_map, List.map_map] at hpaths
    show (files.map OpenFile.path).Nodup
    rw [show files.map OpenFile.path = pool.files.map OpenFile.path from hpaths]
    exact h.nodup
  named path file hmem := h.named path file (hfiles ▸ hmem)

variable [DecidableEq Path] {path : Path} {file : File} {files : List (OpenFile Path File)}

theorem lookUp_found (h : touch path (pool.tick + 1) pool.files = some (file, files)) :
    pool.lookUp path = (some file, { pool with tick := pool.tick + 1, files }) := by
  simp only [lookUp, h]

theorem lookUp_missing (h : touch path (pool.tick + 1) pool.files = none) :
    pool.lookUp path = (none, { pool with tick := pool.tick + 1 }) := by
  simp only [lookUp, h]

theorem insert_found (new : File)
    (h : touch path (pool.tick + 1) pool.files = some (file, files)) :
    pool.insert path new = (file, { pool with tick := pool.tick + 1, files }) := by
  simp only [insert, h]

theorem insert_missing (new : File) (h : touch path (pool.tick + 1) pool.files = none) :
    pool.insert path new = (new, { pool with
      tick := pool.tick + 1
      files := makeRoom pool.capacity pool.files.length pool.files
        ++ [⟨path, new, pool.tick + 1⟩] }) := by
  simp only [insert, h]

/-- **The first section keeps the pool good**, and what it answers is of the path. -/
theorem Good.lookUp (h : pool.Good opened) (path : Path) :
    (pool.lookUp path).2.Good opened
      ∧ ∀ file, (pool.lookUp path).1 = some file → opened path file := by
  cases htouch : touch path (pool.tick + 1) pool.files with
  | none =>
    rw [lookUp_missing htouch]
    refine ⟨h.touched rfl _, fun file hfile => ?_⟩
    cases hfile
  | some found =>
    obtain ⟨file, files⟩ := found
    obtain ⟨hentries, hmem⟩ := touch_eq_some htouch
    rw [lookUp_found htouch]
    refine ⟨h.touched hentries _, fun file' hfile => ?_⟩
    obtain rfl := Option.some.inj hfile
    exact h.named path file hmem

/-- **The second section keeps the pool good**, and what it answers is of the path. -/
theorem Good.insert (h : pool.Good opened) {path : Path} {file : File} (hfile : opened path file) :
    (pool.insert path file).2.Good opened ∧ opened path (pool.insert path file).1 := by
  cases htouch : touch path (pool.tick + 1) pool.files with
  | some found =>
    obtain ⟨kept, files⟩ := found
    obtain ⟨hentries, hmem⟩ := touch_eq_some htouch
    rw [insert_found file htouch]
    exact ⟨h.touched hentries _, h.named path kept hmem⟩
  | none =>
    have hnew := touch_eq_none htouch
    obtain ⟨hroom, hsub⟩ := makeRoom_spec pool.capacity_pos pool.files.length.le_refl
    have hkept := hsub.subset
    obtain ⟨part, hperm, hpart⟩ := hsub
    rw [insert_missing file htouch]
    refine ⟨⟨?_, ?_, ?_⟩, hfile⟩
    · show (makeRoom _ _ _ ++ [_]).length ≤ pool.capacity
      rw [List.length_append, List.length_singleton]
      omega
    · show ((makeRoom _ _ _ ++ [_]).map OpenFile.path).Nodup
      rw [List.map_append, List.nodup_append]
      have hnodup := h.nodup.sublist (hpart.map OpenFile.path)
      refine ⟨(hperm.map OpenFile.path).nodup_iff.mp hnodup, by simp, ?_⟩
      intro p hp q hq heq
      rw [List.map_singleton, List.mem_singleton] at hq
      subst heq hq
      exact hnew (List.map_subset OpenFile.path hkept hp)
    · intro p f hmem
      rw [List.map_append, List.mem_append, List.map_singleton, List.mem_singleton] at hmem
      rcases hmem with hold | hlast
      · exact h.named p f (List.map_subset OpenFile.entry hkept hold)
      · obtain ⟨rfl, rfl⟩ := Prod.mk.inj hlast
        exact hfile

@[simp] theorem lookUp_capacity (path : Path) :
    (pool.lookUp path).2.capacity = pool.capacity := by
  cases htouch : touch path (pool.tick + 1) pool.files with
  | none => rw [lookUp_missing htouch]
  | some found => rw [lookUp_found htouch]

@[simp] theorem insert_capacity (path : Path) (file : File) :
    (pool.insert path file).2.capacity = pool.capacity := by
  cases htouch : touch path (pool.tick + 1) pool.files with
  | none => rw [insert_missing file htouch]
  | some found => rw [insert_found file htouch]

end FilePool

/-! ### What every run keeps -/

/-- A call has nothing in hand but handles of the path it asked for. -/
def PoolCall.Right (opened : Path → File → Prop) : PoolCall Path File → Prop
  | .inserting path file => opened path file
  | .returned path (.ok file) => opened path file
  | .looking _ | .opening _ | .returned _ (.error _) => True

namespace PoolState

/-- What holds in every state of a run. -/
structure Good (opened : Path → File → Prop) (capacity : Nat) (s : PoolState Path File) : Prop where
  pool : s.pool.Good opened
  capacity : s.pool.capacity = max capacity 1
  calls : ∀ c ∈ s.calls, c.Right opened

variable {opened : Path → File → Prop} {capacity : Nat} {s s' : PoolState Path File}

/-- The other calls stay as they are. -/
theorem Good.set (h : s.Good opened capacity) (i : Nat) (c : PoolCall Path File)
    (hc : c.Right opened) : ∀ c' ∈ s.calls.set i c, c'.Right opened := by
  intro c' hc'
  rcases List.mem_or_eq_of_mem_set hc' with hmem | rfl
  · exact h.calls c' hmem
  · exact hc

variable [DecidableEq Path]

/-- **One part of one call keeps what holds.** -/
theorem Good.step (h : s.Good opened capacity) (step : PoolStep opened s s') :
    s'.Good opened capacity := by
  cases step with
  | call path =>
    refine ⟨h.pool, h.capacity, fun c hc => ?_⟩
    rcases List.mem_append.mp hc with hmem | hnew
    · exact h.calls c hmem
    · obtain rfl := List.mem_singleton.mp hnew
      trivial
  | look i path hi =>
    obtain ⟨hpool, hanswer⟩ := h.pool.lookUp path
    refine ⟨hpool, (s.pool.lookUp_capacity path).trans h.capacity, h.set i _ ?_⟩
    cases hfound : (s.pool.lookUp path).1 with
    | none => trivial
    | some file => exact hanswer file hfound
  | lookPoisoned i path hi => exact ⟨h.pool, h.capacity, h.set i (.opening path) trivial⟩
  | opens i path file hi hfile => exact ⟨h.pool, h.capacity, h.set i (.inserting path file) hfile⟩
  | openFails i path error hi => exact ⟨h.pool, h.capacity, h.set i (.returned path (.error error)) trivial⟩
  | inserts i path file hi =>
    have hfile : opened path file := h.calls _ (List.mem_of_getElem? hi)
    obtain ⟨hpool, hanswer⟩ := h.pool.insert hfile
    refine ⟨hpool, (s.pool.insert_capacity path file).trans h.capacity, ?_⟩
    exact h.set i (.returned path (.ok _)) hanswer
  | insertPoisoned i path file hi =>
    have hfile : opened path file := h.calls _ (List.mem_of_getElem? hi)
    exact ⟨h.pool, h.capacity, h.set i (.returned path (.ok file)) hfile⟩

/-- An empty pool that nobody has called. -/
def start (capacity : Nat) : PoolState Path File := ⟨.new capacity, []⟩

theorem good_of_run (run : Relation.ReflTransGen (PoolStep opened) (start capacity) s) :
    s.Good opened capacity := by
  induction run with
  | refl => exact ⟨FilePool.good_new capacity, rfl, fun _ h => absurd h List.not_mem_nil⟩
  | tail _ step ih => exact ih.step step

/-- **The pool never hands out the wrong file.**  In every state of every run the files open are no
    more than the capacity, of different paths, and a call that has returned a handle has one of the
    path it asked for. -/
theorem pool_hands_out (run : Relation.ReflTransGen (PoolStep opened) (start capacity) s) :
    s.pool.files.length ≤ max capacity 1 ∧ (s.pool.files.map OpenFile.path).Nodup
      ∧ ∀ path file, .returned path (.ok file) ∈ s.calls → opened path file := by
  have hgood := good_of_run run
  refine ⟨hgood.capacity ▸ hgood.pool.bounded, hgood.pool.nodup, fun path file hmem => ?_⟩
  exact hgood.calls _ hmem

/-- Two calls for one path, each of which has opened it: the second takes the first one's handle. -/
def raced : PoolState Nat (Nat × Nat) where
  pool := ⟨1, 4, [⟨7, (7, 0), 4⟩], Nat.one_pos⟩
  calls := [.returned 7 (.ok (7, 0)), .returned 7 (.ok (7, 0))]

theorem pool_hands_out_raced : raced.pool.files.length ≤ 1
    ∧ ∀ path file, .returned path (.ok file) ∈ raced.calls → file.1 = path := by
  have run : Relation.ReflTransGen (PoolStep fun path file => file.1 = path) (start 1) raced :=
    Relation.ReflTransGen.refl
      |>.tail (.call 7)
      |>.tail (.call 7)
      |>.tail (.look 0 7 rfl)
      |>.tail (.look 1 7 rfl)
      |>.tail (.opens 0 7 (7, 0) rfl rfl)
      |>.tail (.opens 1 7 (7, 1) rfl rfl)
      |>.tail (.inserts 0 7 (7, 0) rfl)
      |>.tail (.inserts 1 7 (7, 1) rfl)
  exact ⟨(pool_hands_out run).1, (pool_hands_out run).2.2⟩

end PoolState

end FlinkExplorer
