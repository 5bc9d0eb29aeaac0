import FlinkExplorer.Reader.Pass

namespace FlinkExplorer

open Lib

/-!
# Where a call stops

A call of a walk stops at a position it seeks, so the cursor it gives lies at the call's own cursor
or later, within its range, and names the subtask of a unit:

* `seekUnits_found` — what a seek finds;
* `loop_next` — the cursor a call gives, by induction over the turns of its loop;
* `scanWith_next` — for a scan.
-/

/-- A place a seek from `lower` comes to. -/
structure Position.Found (units : List ReadUnit) (lower : Int) (p : Position) (u : ReadUnit) :
    Prop where
  mem : u ∈ units
  keyGroup : lower ≤ p.keyGroup
  within : p.keyGroup ≤ max u.first u.last
  after : lower ≤ p.after
  cursor : ∃ ordinal, p.cursorOf = some ⟨u.subtask, UInt16.ofInt p.keyGroup, ordinal⟩

theorem seekUnits_found {units : List ReadUnit} {lower : Int} {ordinal : UInt32} {p : Position}
    (h : seekUnits lower ordinal units = p) (hne : p ≠ .ended) : ∃ u, p.Found units lower u := by
  induction units with
  | nil => exact absurd h.symm hne
  | cons u units ih =>
    have hlater (hrest : seekUnits lower ordinal units = p) : ∃ v, p.Found (u :: units) lower v := by
      obtain ⟨v, hv⟩ := ih hrest
      exact ⟨v, { hv with mem := List.mem_cons_of_mem u hv.mem }⟩
    rw [seekUnits.eq_def] at h
    dsimp only at h
    by_cases hlast : u.last < lower
    · rw [if_pos hlast] at h
      exact hlater h
    rw [if_neg hlast] at h
    by_cases herror : u.error.isSome = true
    · rw [if_pos herror] at h
      subst h
      exact ⟨u, List.mem_cons_self, le_max_right _ _, max_le (le_max_left _ _) (by
        exact le_max_of_le_right (not_lt.mp hlast)), by
        simp only [Position.after]
        omega, 0, rfl⟩
    rw [if_neg herror] at h
    cases u with
    | failed f => exact hlater h
    | stream s =>
      dsimp only at h
      rcases hfind : (keyGroups (max (ReadUnit.stream s).first lower)
        (ReadUnit.stream s).last).find? s.holds with _ | kg
      · rw [hfind] at h
        exact hlater h
      · rw [hfind] at h
        subst h
        have hmem := mem_keyGroups.mp (List.mem_of_find?_eq_some hfind)
        exact ⟨.stream s, List.mem_cons_self, by simp only [Position.keyGroup]; omega,
          le_max_of_le_right hmem.2, by simp only [Position.after]; omega, _, rfl⟩

/-- A cursor of a call from `lower` on: a key-group not past its range, and the subtask of a unit. -/
def Cursor.Next {α : Type} (w : Walk α) (units : List ReadUnit) (lower : Int) (c : Cursor) : Prop :=
  ∃ kg, lower ≤ kg ∧ w.past kg = false ∧ c.keyGroup = UInt16.ofInt kg
    ∧ ∃ u ∈ units, kg ≤ max u.first u.last ∧ c.subtask = u.subtask

theorem Position.Found.next {α : Type} {w : Walk α} {units : List ReadUnit} {lower : Int}
    {p : Position} {u : ReadUnit} (h : p.Found units lower u) (hpast : w.past p.keyGroup = false) :
    ∀ c ∈ p.cursorOf, c.Next w units lower := by
  intro c hc
  obtain ⟨ordinal, hcursor⟩ := h.cursor
  rw [hcursor, Option.mem_some_iff] at hc
  subst hc
  exact ⟨p.keyGroup, h.keyGroup, hpast, rfl, u, h.mem, h.within, rfl⟩

/-- **Where a call stops**, whatever it reads: at a place it seeks, in its range. -/
theorem Walk.loop_next {α σ : Type} (w : Walk α) (fetch : Fetch σ) {units : List ReadUnit}
    {lower : Int} (turns : Nat) (pos : Position) (visited : Nat) (page : Page α) (st : σ)
    (hpos : pos ≠ .ended → ∃ u, pos.Found units lower u) (hpage : page.next = none) :
    ∀ c ∈ (w.loop fetch units turns pos visited page st).1.next, c.Next w units lower := by
  induction turns generalizing pos visited page st with
  | zero =>
    intro c hc
    rw [Walk.loop, hpage] at hc
    cases hc
  | succ turns ih =>
    have hlater (from' : Int) (hfrom : lower ≤ from') :
        seekUnits from' 0 units ≠ .ended → ∃ u, (seekUnits from' 0 units).Found units lower u := by
      intro hne
      obtain ⟨u, hu⟩ := seekUnits_found rfl hne
      exact ⟨u, { hu with
        keyGroup := hfrom.trans hu.keyGroup
        after := hfrom.trans hu.after }⟩
    rw [Walk.loop]
    by_cases hended : pos = .ended
    · subst hended
      intro c hc
      rw [Walk.clip] at hc
      dsimp only at hc
      rw [hpage] at hc
      cases hc
    obtain ⟨u, hu⟩ := hpos hended
    rw [w.clip_eq pos hended]
    by_cases hpast : w.past pos.keyGroup = true
    · rw [if_pos hpast]
      intro c hc
      dsimp only at hc
      rw [hpage] at hc
      cases hc
    rw [if_neg hpast]
    have hin : w.past pos.keyGroup = false := Bool.eq_false_iff.mpr hpast
    cases pos with
    | ended => exact absurd rfl hended
    | unreadable v from' =>
      dsimp only
      by_cases hstops : w.stops visited page.stats page.found = true
      · rw [if_pos hstops]
        exact hu.next hin
      · rw [if_neg hstops]
        exact ih _ _ _ _ (hlater _ hu.after) hpage
    | block s kg ordinal =>
      dsimp only
      by_cases hstops : w.stops visited page.stats page.found = true
      · rw [if_pos hstops]
        exact hu.next hin
      rw [if_neg hstops]
      rcases hfetch : fetch s kg page.stats st with ⟨⟨e⟩ | (_ | ⟨header, block⟩), stats, st'⟩
      · exact ih _ _ _ _ (hlater _ hu.after) hpage
      · exact ih _ _ _ _ (hlater _ hu.after) hpage
      · dsimp only
        rcases hkeys : w.keys s header kg ordinal.toNat (block.keys.drop ordinal.toNat) page.found
          with ⟨found, _ | ord⟩
        · exact ih _ _ _ _ (hlater _ hu.after) hpage
        · intro c hc
          -- the call stopped inside the block it was at
          obtain rfl := Option.mem_some_iff.mp hc
          obtain ⟨_, hcursor⟩ := hu.cursor
          have hsubtask : s.subtaskIndex = u.subtask :=
            congrArg Cursor.subtask (Option.some.inj hcursor)
          exact ⟨kg, hu.keyGroup, hin, rfl, u, hu.mem, hu.within, hsubtask⟩

/-- The cursor a scan gives. -/
theorem StateReader.scanWith_next {R : StateReader} {τ : Type} {op : Text} {o : OpenOperator}
    (hop : R.operator op = .ok o) {c : Cursor} {opts : ScanOptions} {test : τ → Text → τ × Bool}
    {t : τ} {cache : BlockCache} {page : Page (List KeyRecord × τ)}
    (h : (R.scanWith op c opts test t cache).1 = .ok page) :
    ∀ c' ∈ page.next, c'.Next (R.scanWalk opts test) o.ctx.units c.keyGroup.toNat := by
  unfold StateReader.scanWith StateReader.page at h
  rw [hop] at h
  dsimp only at h
  rcases hcheck : o.checkCursor c with e | ⟨⟩
  · rw [hcheck] at h
    cases h
  rw [hcheck] at h
  dsimp only at h
  obtain rfl := Except.ok.inj h
  exact Walk.loop_next _ _ _ _ _ _ _ (fun hne => seekUnits_found rfl hne) rfl

end FlinkExplorer
