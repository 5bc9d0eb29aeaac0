import FlinkExplorer.Reader.Lookup
import FlinkExplorer.Reader.Onward

namespace FlinkExplorer

open Lib

/-!
# Consecutive keys

A page from a cursor holds the keys from there on, as many as were asked for.  A cursor that is the
position of a key stands for that key and all those after it.

* `keyPage_take` — the keys of a page;
* `keysFrom_position` — what the position of a key stands for;
* `keyPage_position` — so a page from there holds consecutive keys;
* `StateReader.keyOrder` — the positions of the keys in order; `orderFrom_keyGroup` — those from the
  start of a key-group on.
-/

/-! ### When a page is full -/

section Full

variable {α σ : Type} {w : Walk α} {P : α → Prop}

/-- The keys of a block, as far as the call is not full. -/
theorem Walk.keys_full
    (hstep : ∀ s header kg ord raw found, P found → ¬ w.full found = true →
      P (w.step s header kg ord raw found))
    (s : SubtaskStream) (header : SubtaskHeader) (kg : Int) (ord : Nat) (raws : List RawKey)
    {found : α} (hfound : P found) :
    P (w.keys s header kg ord raws found).1
      ∧ ((w.keys s header kg ord raws found).2 ≠ none →
        w.full (w.keys s header kg ord raws found).1 = true) := by
  induction raws generalizing ord found with
  | nil => exact ⟨hfound, fun h => absurd rfl h⟩
  | cons raw raws ih =>
    rw [Walk.keys]
    by_cases hfull : w.full found = true
    · rw [if_pos hfull]
      exact ⟨hfound, fun _ => hfull⟩
    · rw [if_neg hfull]
      exact ih (ord + 1) (hstep s header kg ord raw found hfound hfull)

/-- **Without a budget a call stops early only when it is full.** -/
theorem Walk.loop_full (hbudget : w.byteBudget = none)
    (hstep : ∀ s header kg ord raw found, P found → ¬ w.full found = true →
      P (w.step s header kg ord raw found))
    (fetch : Fetch σ) (units : List ReadUnit) (turns : Nat) (pos : Position) (visited : Nat)
    (page : Page α) (st : σ) (hfound : P page.found) (hnext : page.next = none) :
    P (w.loop fetch units turns pos visited page st).1.found
      ∧ ((w.loop fetch units turns pos visited page st).1.next ≠ none →
        w.full (w.loop fetch units turns pos visited page st).1.found = true) := by
  -- without a byte budget a walk stops for the cap alone
  have hstops (visited : Nat) (stats : ReadStats) (found : α) :
      w.stops visited stats found = w.full found := by
    unfold Walk.stops
    rw [hbudget]
    simp
  induction turns generalizing pos visited page st with
  | zero => exact ⟨hfound, fun h => absurd hnext h⟩
  | succ turns ih =>
    rw [Walk.loop]
    cases hclip : w.clip pos with
    | ended => exact ⟨hfound, fun h => absurd hnext h⟩
    | unreadable u from' =>
      dsimp only
      rw [hstops]
      by_cases hfull : w.full page.found = true
      · rw [if_pos hfull]
        exact ⟨hfound, fun _ => hfull⟩
      · rw [if_neg hfull]
        exact ih _ _ _ _ hfound hnext
    | block s kg ordinal =>
      dsimp only
      rw [hstops]
      by_cases hfull : w.full page.found = true
      · rw [if_pos hfull]
        exact ⟨hfound, fun _ => hfull⟩
      · rw [if_neg hfull]
        rcases fetch s kg page.stats st with ⟨e | _ | ⟨header, block⟩, stats, st'⟩
        · exact ih _ _ _ _ hfound hnext
        · exact ih _ _ _ _ hfound hnext
        · have hkeys := Walk.keys_full hstep s header kg ordinal.toNat
            (block.keys.drop ordinal.toNat) hfound
          dsimp only
          rcases hmet : w.keys s header kg ordinal.toNat (block.keys.drop ordinal.toNat) page.found
            with ⟨found, _ | ord⟩
          · rw [hmet] at hkeys
            exact ih _ _ _ _ hkeys.1 hnext
          · rw [hmet] at hkeys
            exact ⟨hkeys.1, fun _ => hkeys.2 (Option.some_ne_none ord)⟩

end Full

variable {R : StateReader} {o : OpenOperator} {op : Text}

/-- The position of a key names the key-group it is in. -/
theorem keyGroup_of_mem_keysOf {s : SubtaskStream} {kg : Int} {r : KeyRecord}
    (h : r ∈ R.keysOf o s kg) : r.keyGroup = r.position.keyGroup ∧ r.keyGroup = UInt16.ofInt kg := by
  obtain ⟨header, block, ord, raw, -, -, rfl⟩ := mem_keysOf h
  exact ⟨rfl, rfl⟩

/-- **A page of keys** holds the first keys from its cursor on, as many as were asked for. -/
theorem keyPage_take (hop : R.operator op = .ok o) (ho : o.Regular) (hsized : R.Sized o)
    {cache : BlockCache} (hcache : R.Reached cache) {c : Cursor} (hcheck : o.checkCursor c = .ok ())
    (limit : Nat) :
    ∃ page taken, (R.keyPage op c limit cache).1 = .ok page
      ∧ R.Onward o (R.keyWalk limit) c [] page taken
      ∧ page.found = (R.keysFrom o (some c)).take (max limit 1)
      ∧ R.keysFrom o (some c) = page.found ++ R.keysFrom o page.next := by
  have hfull : ¬ (R.keyWalk limit).full [] = true := by simp [StateReader.keyWalk]
  obtain ⟨page, taken, hpage, honward⟩ := page_onward hop ho hsized
    (rfl : (R.keyWalk limit).lastKeyGroup = none) true hcache.sound hcheck hfull
  have hfound : page.found = taken.filterMap R.recordOf := by
    rw [honward.found, gather_keys, List.nil_append]
  have hkeys := honward.keys
  rw [← hfound] at hkeys
  -- What a page found never exceeds the limit, and reaches it where there is a next page.
  have hlength : page.found.length ≤ max limit 1
      ∧ (page.next ≠ none → max limit 1 ≤ page.found.length) := by
    unfold StateReader.page at hpage
    rw [hop] at hpage
    dsimp only at hpage
    rw [hcheck] at hpage
    dsimp only at hpage
    obtain rfl := Except.ok.inj hpage
    have hloop := Walk.loop_full (w := R.keyWalk limit)
      (P := fun found => found.length ≤ max limit 1) rfl (fun s header kg ord raw found _ hless => ?_)
      (R.grouped o true) o.ctx.units ((Walk.endKeyGroup o.ctx.units - c.keyGroup.toNat).toNat + 1)
      (o.ctx.seek c.keyGroup.toNat c.ordinal) 0 ⟨[], none, .zero, [], []⟩ cache (Nat.zero_le _) rfl
    · exact ⟨hloop.1, fun hnext => of_decide_eq_true (hloop.2 hnext)⟩
    · simp only [StateReader.keyWalk, decide_eq_true_eq, not_le] at hless ⊢
      rw [List.length_append, List.length_singleton]
      omega
  refine ⟨page, taken, hpage, honward, ?_, hkeys⟩
  rw [hkeys]
  cases hnext : page.next with
  | none =>
    have hnil : R.keysFrom o none = [] := rfl
    rw [hnil, List.append_nil, List.take_of_length_le hlength.1]
  | some c' =>
    have hreached := hlength.2 (hnext ▸ Option.some_ne_none c')
    rw [List.take_append_of_le_length hreached, List.take_of_length_le hlength.1]

/-! ### The position of a key -/

/-- A list leaves any end of itself. -/
theorem Left.suffix (ps rest : List Position) : Left (ps ++ rest) rest := by
  induction ps with
  | nil => exact .here rest
  | cons p ps ih => exact .skip p ih

theorem keysFrom_of_ahead {c : Cursor} {p : Position} {rest : List Position}
    (h : o.ahead c = p :: rest) :
    R.keysFrom o (some c) = R.keysAt o p ++ (R.eventsOf o rest).filterMap R.recordOf := by
  unfold StateReader.keysFrom StateReader.eventsFrom
  rw [Option.elim_some, h]
  exact List.filterMap_append

/-- The keys of a block from an ordinal on. -/
theorem keysAt_drop (s : SubtaskStream) (kg : Int) (ordinal : UInt32) :
    R.keysAt o (.block s kg ordinal) = (R.keysOf o s kg).drop ordinal.toNat := by
  unfold StateReader.keysAt StateReader.eventsAt StateReader.keysOf
  dsimp only
  rcases R.contentOf o s kg with e | _ | ⟨header, block⟩
  · exact List.drop_nil.symm
  · exact List.drop_nil.symm
  · dsimp only
    rw [filterMap_keyEvents]
    apply List.ext_getElem?
    intro i
    simp only [List.getElem?_mapIdx, List.getElem?_drop]

/-- The keys of a block from one of them on. -/
theorem keysOf_split {s : SubtaskStream} {kg : Int} {header : SubtaskHeader} {block : GroupedBlock}
    (hcontent : R.contentOf o s kg = .ok (some (header, block))) {ord : Nat} {raw : RawKey}
    (hraw : block.keys[ord]? = some raw) (hord : ord < 2 ^ 32) :
    ∃ before after, R.keysOf o s kg = before ++ R.keysAt o (.block s kg (UInt32.ofNat ord))
      ∧ R.keysAt o (.block s kg (UInt32.ofNat ord)) = R.record s header kg ord raw :: after := by
  have hround : (UInt32.ofNat ord).toNat = ord := by
    rw [UInt32.toNat_ofNat']
    exact Nat.mod_eq_of_lt hord
  have hget : (R.keysOf o s kg)[ord]? = some (R.record s header kg ord raw) := by
    unfold StateReader.keysOf
    simp only [hcontent, List.getElem?_mapIdx, hraw, Option.map_some]
  obtain ⟨hlt, hget⟩ := List.getElem?_eq_some_iff.mp hget
  refine ⟨(R.keysOf o s kg).take ord, (R.keysOf o s kg).drop (ord + 1), ?_, ?_⟩
  · rw [keysAt_drop, hround, List.take_append_drop]
  · rw [keysAt_drop, hround, List.drop_eq_getElem_cons hlt, hget]

/-- **The position of a key** is accepted, and stands for the key and all those after it. -/
theorem keysFrom_position (ho : o.Regular) (hsized : R.Sized o) {r : KeyRecord}
    (hr : r ∈ R.keysWhere o fun _ => true) :
    o.checkCursor r.position = .ok ()
      ∧ ∃ before after, (R.keysWhere o fun _ => true) = before ++ r :: after
        ∧ R.keysFrom o (some r.position) = r :: after := by
  have hstart : (R.keysWhere o fun _ => true)
      = (R.eventsOf o (positions 0 o.ctx.units)).filterMap R.recordOf := by
    rw [← keysFrom_start ho, StateReader.keysFrom, StateReader.eventsFrom, Option.elim_some,
      ahead_start ho]
  have hmem := hr
  rw [hstart, StateReader.eventsOf, List.filterMap_flatMap] at hmem
  obtain ⟨p, hp, hrp⟩ := List.mem_flatMap.mp hmem
  obtain ⟨ps, rest, hps⟩ := List.append_of_mem hp
  obtain ⟨u, hu, hunit, hhas⟩ := positions_unit ho.laidOut hp
  have hline : OnLine o.ctx.units (p :: rest) :=
    (Left.suffix ps (p :: rest)).onLine ho.laidOut (hps ▸ onLine_positions ho.laidOut 0)
  obtain ⟨v, hv, hpv⟩ := List.mem_flatMap.mp hp
  rcases mem_positionsOf.mp hpv with ⟨-, -, rfl⟩ | ⟨-, s, kg, rfl, -, -, -, rfl⟩
  · cases hrp
  · have hkeys : r ∈ R.keysOf o s kg := by
      rw [← keysAt_block]
      exact hrp
    have hs : s ∈ o.ctx.streams := by
      rcases o.ctx.mem_units.mp hv with ⟨s', hs', heq⟩ | ⟨f, -, heq⟩
      · cases heq
        exact hs'
      · cases heq
    cases hunit
    obtain ⟨header, block, ord, raw, hcontent, hraw, rfl⟩ := mem_keysOf hkeys
    have hlt : ord < 2 ^ 32 :=
      (List.getElem?_eq_some_iff.mp hraw).1.trans_le (hsized s hs kg hhas header block hcontent)
    obtain ⟨before, after, hsplit, hcons⟩ := keysOf_split hcontent hraw hlt
    -- The key's position is on the line of the walk.
    have honline : OnLine o.ctx.units (.block s kg (UInt32.ofNat ord) :: rest) := by
      cases hline with
      | block h _ => exact .block h _
    obtain ⟨c, hc, hkg, hordinal, hcheck⟩ := cursorOf_spec ho honline
    obtain rfl := Option.some.inj hc
    refine ⟨hcheck, (R.eventsOf o ps).filterMap R.recordOf ++ before,
      after ++ (R.eventsOf o rest).filterMap R.recordOf, ?_, ?_⟩
    · rw [hstart, hps]
      have hone : (R.eventsOf o (ps ++ .block s kg 0 :: rest)).filterMap R.recordOf
          = (R.eventsOf o ps).filterMap R.recordOf
            ++ (R.keysAt o (.block s kg 0) ++ (R.eventsOf o rest).filterMap R.recordOf) := by
        unfold StateReader.eventsOf StateReader.keysAt
        rw [List.flatMap_append, List.flatMap_cons, List.filterMap_append, List.filterMap_append]
      rw [hone, keysAt_block, hsplit, hcons]
      simp only [List.append_assoc, List.cons_append]
    · have hahead := ahead_cursorOf honline hkg hordinal
      rw [position_record]
      exact (keysFrom_of_ahead hahead).trans (by rw [hcons]; rfl)

/-- **A page from the position of a key** holds that key and those that follow it. -/
theorem keyPage_position (hop : R.operator op = .ok o) (ho : o.Regular) (hsized : R.Sized o)
    {cache : BlockCache} (hcache : R.Reached cache) {before after : List KeyRecord} {r : KeyRecord}
    (hkeys : (R.keysWhere o fun _ => true) = before ++ r :: after) (limit : Nat) :
    ∃ page, (R.keyPage op r.position limit cache).1 = .ok page
      ∧ page.found = (r :: after).take (max limit 1) := by
  have hr : r ∈ R.keysWhere o fun _ => true := by
    rw [hkeys]
    exact List.mem_append_right _ List.mem_cons_self
  obtain ⟨hcheck, before', after', hkeys', hfrom⟩ := keysFrom_position ho hsized hr
  obtain ⟨page, -, hpage, -, hfound, -⟩ := keyPage_take hop ho hsized hcache hcheck limit
  refine ⟨page, hpage, ?_⟩
  -- A key comes once, so there is one way to split the keys at it.
  have hnodup := (nodup_positions ho hsized (R := R)).of_map
  rw [hkeys', List.nodup_middle, List.nodup_cons, List.mem_append, not_or] at hnodup
  obtain ⟨⟨hbefore, hafter⟩, -⟩ := hnodup
  obtain ⟨-, -, rfl⟩ := (List.append_cons_inj_of_notMem hbefore hafter).mp (hkeys'.symm.trans hkeys)
  rw [hfound, hfrom]

/-! ### The order of keys -/

section Order

variable (R : StateReader) (o : OpenOperator)

/-- The positions of an operator's keys, in order. -/
def StateReader.keyOrder : List Cursor := (R.keysWhere o fun _ => true).map (·.position)

/-- The positions from a cursor on. -/
def StateReader.orderFrom (c : Option Cursor) : List Cursor := (R.keysFrom o c).map (·.position)

end Order

theorem orderFrom_start (ho : o.Regular) : R.orderFrom o (some .start) = R.keyOrder o := by
  unfold StateReader.orderFrom StateReader.keyOrder
  rw [keysFrom_start ho]

/-- The key-groups of the keys ascend. -/
theorem keyOrder_ascending (ho : o.Regular) (hsized : R.Sized o) :
    (R.keyOrder o).Pairwise fun c d => c.keyGroup ≤ d.keyGroup := by
  unfold StateReader.keyOrder
  rw [List.pairwise_map]
  refine (keysWhere_sorted ho hsized _).imp fun h => ?_
  rcases h with hlt | ⟨heq, -⟩
  · exact UInt16.le_iff_toNat_le.mpr hlt.le
  · exact UInt16.le_iff_toNat_le.mpr (heq ▸ le_rfl)

/-- The keys from a cursor on are keys of the operator. -/
theorem mem_of_mem_keysFrom (ho : o.Regular) {c : Cursor} {r : KeyRecord}
    (hr : r ∈ R.keysFrom o (some c)) : r ∈ R.keysWhere o fun _ => true := by
  unfold StateReader.keysFrom StateReader.eventsFrom StateReader.eventsOf at hr
  rw [Option.elim_some, List.filterMap_flatMap] at hr
  obtain ⟨p, hp, hrp⟩ := List.mem_flatMap.mp hr
  obtain ⟨q, hq, hunit, hkg⟩ := ahead_mem hp
  obtain ⟨u, hu, hqunit, hhas⟩ := positions_unit ho.laidOut hq
  rw [hqunit] at hunit
  rw [← hkg] at hhas
  cases p with
  | ended => cases hrp
  | unreadable v from' => cases hrp
  | block s kg ordinal =>
    cases hunit
    have hkeys : r ∈ R.keysAt o (.block s kg ordinal) := hrp
    rw [keysAt_drop] at hkeys
    rcases o.ctx.mem_units.mp hu with ⟨s', hs', heq⟩ | ⟨f, -, heq⟩
    · cases heq
      exact mem_keysWhere hs' hhas (List.mem_of_mem_drop hkeys)
    · cases heq

/-- The keys of the key-groups wanted, among all. -/
theorem keysWhere_filter (ho : o.Regular) (wanted : Int → Bool) :
    R.keysWhere o wanted
      = (R.keysWhere o fun _ => true).filter fun r => wanted r.position.keyGroup.toNat := by
  unfold StateReader.keysWhere
  rw [List.filter_flatMap]
  refine List.flatMap_congr fun u hu => ?_
  cases u with
  | failed f => rfl
  | stream s =>
    dsimp only
    rw [List.filter_true, List.filter_flatMap]
    have hwanted : ∀ kg ∈ keyGroups s.startKeyGroup (ReadUnit.stream s).last,
        (R.keysOf o s kg).filter (fun r => wanted r.position.keyGroup.toNat)
          = if wanted kg = true then R.keysOf o s kg else [] := by
      intro kg hkg
      obtain ⟨h0, -, h1⟩ := ho.within _ hu kg (mem_keyGroups.mp hkg)
      have hgroup : ∀ r ∈ R.keysOf o s kg, (r.position.keyGroup.toNat : Int) = kg := by
        intro r hr
        obtain ⟨heq, hkg'⟩ := keyGroup_of_mem_keysOf hr
        rw [← heq, hkg']
        exact toNat_ofInt_keyGroup h0 h1
      by_cases hw : wanted kg = true
      · rw [if_pos hw, List.filter_eq_self]
        intro r hr
        rw [hgroup r hr]
        exact hw
      · rw [if_neg hw, List.filter_eq_nil_iff]
        intro r hr
        rw [hgroup r hr]
        exact hw
    rw [List.flatMap_congr hwanted]
    induction keyGroups s.startKeyGroup (ReadUnit.stream s).last with
    | nil => rfl
    | cons kg kgs ih =>
      rw [List.flatMap_cons, ← ih]
      by_cases hw : wanted kg = true
      · rw [List.filter_cons_of_pos hw, if_pos hw, List.flatMap_cons]
      · rw [List.filter_cons_of_neg hw, if_neg hw, List.nil_append]

/-- **From the first ordinal of a key-group on** there are the keys of that key-group and of those
    after it. -/
theorem orderFrom_keyGroup (ho : o.Regular) {c : Cursor} (hc : c.ordinal = 0) :
    R.orderFrom o (some c) = (R.keyOrder o).filter fun d => decide (c.keyGroup ≤ d.keyGroup) := by
  have hahead : o.ahead c = positions c.keyGroup.toNat o.ctx.units := by
    unfold OpenOperator.ahead
    rw [hc]
    exact startAt_zero ho.laidOut _
  have hrange : (R.keyWalk 1).inRange (positions c.keyGroup.toNat o.ctx.units)
      = positions c.keyGroup.toNat o.ctx.units := Walk.inRange_all rfl _
  have hkeys := keysWhere_eq (R := R) (R.keyWalk 1) ho c.keyGroup.toNat
  rw [hrange] at hkeys
  unfold StateReader.orderFrom StateReader.keyOrder StateReader.keysFrom StateReader.eventsFrom
  rw [Option.elim_some, hahead, hkeys, keysWhere_filter ho, List.filter_map]
  congr 1
  refine List.filter_congr fun r _ => ?_
  have hpast (kg : Int) : (R.keyWalk 1).past kg = false := rfl
  simp only [hpast, Bool.not_false, Bool.and_true, Function.comp_apply, UInt16.le_iff_toNat_le,
    Int.ofNat_le]

end FlinkExplorer
