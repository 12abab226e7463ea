import Mathlib.Data.List.MinMax
import S3Dhcpd.RcPlain
import S3Dhcpd.RcWrites

/-! `dump`: the table written as lines, and which tables those lines restore. -/
namespace S3Dhcpd.RcFile
open KeyedTable

variable {host host₀ : Host} {rc rc' : Apprc} {l l' : Loader Apprc} {f : Frame}
  {item item' : String × String} {items : List (String × String)} {s key val name text : List Char}
  {k : String}

/-- A key or a value as `dump` writes it. -/
def dumpSide (s : List Char) : List Char := if ' ' ∈ s then '{' :: (s ++ ['}']) else s

def dumpLine (item : String × String) : List Char :=
  dumpSide item.1.toList ++ '=' :: dumpSide item.2.toList

/-- `dump`, for the items in the order of their slots. -/
def dump (items : List (String × String)) : List Char := unlines (items.map dumpLine)

/-- Loading what `dump` writes into an empty `dsApprc` succeeds and gives the same mapping. -/
def Reloads (host : Host) (rc : Apprc) (items : List (String × String)) : Prop :=
  ∃ l, Loads host (.ofText (dump items)) bareLoader .initial (.ok l) ∧
    ∀ k, l.rc.value k = rc.value k

/-- A C string without newlines. -/
def OneLine (s : String) : Prop := '\n' ∉ s.toList ∧ '\x00' ∉ s.toList

/-- The line of an item is read as it is meant. -/
structure Rereadable (host : Host) (item : String × String) : Prop where
  short : (dumpLine item).length < MAX_RC_LINE-1
  kind : lineKind (bufOf (dumpLine item)) = .key
  key : ∀ c ∈ item.1.toList, c ∉ ACTIVE
  bare : ' ' ∉ item.1.toList → '\t' ∉ item.1.toList ∧ '=' ∉ item.1.toList
  array : item.1.toList.length < 3 → isArrayKey host item.1.toList = false
  value : ∀ c ∈ item.2.toList, c ∉ ACTIVE
  ends : ' ' ∉ item.2.toList →
    item.2.toList.head? ≠ some '\t' ∧ item.2.toList.getLast? ≠ some '\t'

section Written

theorem dumpSide_absent {c : Char} (hc : c ∉ s) (hopen : c ≠ '{') (hclose : c ≠ '}') :
    c ∉ dumpSide s := by
  rw [dumpSide]
  split_ifs
  · simp only [List.mem_cons, List.mem_append, List.not_mem_nil, or_false, not_or]
    exact ⟨hopen, hc, hclose⟩
  · exact hc

theorem dumpLine_absent {c : Char} (hkey : c ∉ item.1.toList) (hval : c ∉ item.2.toList)
    (hopen : c ≠ '{') (hclose : c ≠ '}') (htag : c ≠ '=') : c ∉ dumpLine item := by
  rw [dumpLine, List.mem_append, List.mem_cons, not_or, not_or]
  exact ⟨dumpSide_absent hkey hopen hclose, htag, dumpSide_absent hval hopen hclose⟩

theorem bare_not_blank {c : Char} (hblank : ' ' ∉ s) (htab : '\t' ∉ s) (hc : c ∈ s) :
    isBlankOrTab c = false := by
  rw [isBlankOrTab, beq_eq_false_iff_ne.mpr (ne_of_mem_of_not_mem hc hblank),
    beq_eq_false_iff_ne.mpr (ne_of_mem_of_not_mem hc htab)]
  rfl

theorem readsKey_dumpSide (hactive : ∀ c ∈ s, c ∉ ACTIVE)
    (hbare : ' ' ∉ s → '\t' ∉ s ∧ '=' ∉ s) : ReadsKey (dumpSide s) s := by
  rw [dumpSide]
  split_ifs with hblank
  · exact readsKey_literal hactive
  · obtain ⟨htab, htag⟩ := hbare hblank
    exact readsKey_plain fun c hc => ⟨hactive c hc, bare_not_blank hblank htab hc,
      fun h => htag (h ▸ hc)⟩

theorem readsValue_dumpSide (hactive : ∀ c ∈ s, c ∉ ACTIVE) (hnewline : '\n' ∉ s)
    (hends : ' ' ∉ s → s.head? ≠ some '\t' ∧ s.getLast? ≠ some '\t') :
    ReadsValue (dumpSide s) s := by
  rw [dumpSide]
  split_ifs with hblank
  · exact readsValue_literal hactive
  · obtain ⟨hfirst, hlast⟩ := hends hblank
    have hchar {c : Char} (hc : c ∈ s) (htab : c ≠ '\t') : isBlankOrTab c = false := by
      rw [isBlankOrTab, beq_eq_false_iff_ne.mpr (ne_of_mem_of_not_mem hc hblank),
        beq_eq_false_iff_ne.mpr htab]
      rfl
    refine readsValue_plain hactive (fun c hc => ?_) fun c hc => ?_
    · exact hchar (List.mem_of_head? hc) fun h => hfirst (h ▸ hc)
    · have hmem : c ∈ s := List.mem_of_getLast? hc
      rw [isTrimmed, hchar hmem fun h => hlast (h ▸ hc),
        beq_eq_false_iff_ne.mpr (ne_of_mem_of_not_mem hmem hnewline)]
      rfl

/-- Without blanks and tabs in front, and without zeros, the line is the buffer's text. -/
theorem bufOf_dumpLine (hkey : OneLine item.1) (hval : OneLine item.2)
    (hbare : ' ' ∉ item.1.toList → '\t' ∉ item.1.toList) :
    bufOf (dumpLine item) = dumpLine item := by
  have hzero := dumpLine_absent hkey.2 hval.2 (by decide) (by decide) (by decide)
  have hfirst : ∀ c, (dumpLine item).head? = some c → isBlankOrTab c = false := by
    intro c hc
    rw [dumpLine, dumpSide] at hc
    split_ifs at hc with hblank
    · obtain rfl := Option.some.inj hc
      rfl
    · cases hs : item.1.toList with
      | nil =>
        rw [hs] at hc
        obtain rfl := Option.some.inj hc
        rfl
      | cons x s =>
        have hx : x ∈ item.1.toList := by rw [hs]; exact List.mem_cons_self
        rw [hs] at hc
        obtain rfl := Option.some.inj hc
        exact bare_not_blank hblank (hbare hblank) hx
  have hnone : Blanks [] := fun _ h => absurd h List.not_mem_nil
  exact bufOf_lead hnone hzero hfirst

theorem handsOn_dumpLine (hkey : OneLine item.1) (hval : OneLine item.2)
    (h : Rereadable host item) (rc : Apprc) :
    HandsOn host rc (bufOf (dumpLine item)) item.1.toList item.2.toList := by
  have hnone : ∀ c ∈ ([] : List Char), isBlankOrTab c = true :=
    fun _ h => absurd h List.not_mem_nil
  have hsides : HandsOn host rc (dumpSide item.1.toList ++
      ([] ++ '=' :: ([] ++ (dumpSide item.2.toList ++ [])))) item.1.toList item.2.toList :=
    handsOn_sides (readsKey_dumpSide h.key h.bare) (readsValue_dumpSide h.value hval.1 h.ends)
      hnone hnone hnone
  rw [List.nil_append, List.nil_append, List.append_nil] at hsides
  rw [bufOf_dumpLine hkey hval fun hblank => (h.bare hblank).1]
  exact hsides

/-- The turn on the line of an item stores it. -/
theorem turn_dumpLine (hkey : OneLine item.1) (hval : OneLine item.2)
    (harray : ¬"-[]".toList <:+ item.1.toList) (h : Rereadable host item)
    (hactive : doIgnore f = false) : turn host l f (dumpLine item) =
      .next { l with rc := l.rc.store item.1.toList item.2.toList } f := by
  have hplain : isArrayKey host item.1.toList = false := by
    by_cases hlen : item.1.toList.length < 3
    · exact h.array hlen
    · exact isArrayKey_plain (Nat.not_lt.mp hlen) harray
  rw [turn_key h.kind hactive, (handsOn_dumpLine hkey hval h l.rc).addLine, add2, hplain]
  rfl

/-- The items are stored one after the other. -/
def storeAll (rc : Apprc) (items : List (String × String)) : Apprc :=
  items.foldl (fun rc item => rc.store item.1.toList item.2.toList) rc

theorem value_storeAll (hunique : (items.map Prod.fst).Nodup) :
    (∀ item ∈ items, (storeAll rc items).value item.1 = some item.2) ∧
      ∀ k, k ∉ items.map Prod.fst → (storeAll rc items).value k = rc.value k := by
  induction items generalizing rc with
  | nil => exact ⟨fun _ h => absurd h List.not_mem_nil, fun _ _ => rfl⟩
  | cons item items ih =>
    rw [List.map_cons, List.nodup_cons] at hunique
    obtain ⟨hnew, hunique⟩ := hunique
    obtain ⟨hstored, hother⟩ := @ih (rc.store item.1.toList item.2.toList) hunique
    rw [storeAll, List.foldl_cons, ← storeAll]
    refine ⟨List.forall_mem_cons.mpr ⟨?_, hstored⟩, fun k hk => ?_⟩
    · rw [hother item.1 hnew, Apprc.value_store, String.ofList_toList, String.ofList_toList,
        if_pos rfl]
    · rw [List.map_cons, List.mem_cons, not_or] at hk
      rw [hother k hk.2, Apprc.value_store, String.ofList_toList, if_neg hk.1]

theorem loads_dump (hlines : ∀ item ∈ items, OneLine item.1 ∧ OneLine item.2)
    (harrays : ∀ item ∈ items, ¬"-[]".toList <:+ item.1.toList)
    (h : ∀ item ∈ items, Rereadable host item) (hlev : f.lev = 0) (hactive : doIgnore f = false) :
    Loads host (.ofText (dump items)) l f (.ok { l with rc := storeAll l.rc items }) := by
  -- on the items; every line is a step to the table with one more of them
  induction items generalizing l f with
  | nil =>
    refine loads_nil.mpr ?_
    rw [finish, if_neg (not_not.mpr hlev)]
    rfl
  | cons item items ih =>
    rw [List.forall_mem_cons] at hlines harrays h
    obtain ⟨⟨hkey, hval⟩, hlines⟩ := hlines
    have hshort : ShortLine (dumpLine item) :=
      ⟨dumpLine_absent hkey.1 hval.1 (by decide) (by decide) (by decide), h.1.short⟩
    rw [dump, List.map_cons, unlines_cons, loads_step hshort (.next (turn_dumpLine hkey hval
      harrays.1 h.1 hactive))]
    exact @ih { l with rc := l.rc.store item.1.toList item.2.toList } (f.nextLine (dumpLine item))
      hlines harrays.2 h.2 hlev hactive

end Written

section Restored

/-- The items of a table, in any order, tell what it maps a key to. -/
theorem value_iff_mem (hitems : items.Perm rc.items.rows) {x : String} :
    rc.value k = some x ↔ (k, x) ∈ items := by
  rw [hitems.mem_iff, Table.mem_iff_row?, Apprc.value, Option.map_eq_some_iff]
  constructor
  · rintro ⟨row, hrow, rfl⟩
    obtain ⟨_, rfl⟩ := Table.row?_eq_some.mp hrow
    exact hrow
  · exact fun hrow => ⟨_, hrow, rfl⟩

theorem Produced.items_not_array (hrc : Produced host₀ rc) (hitems : items.Perm rc.items.rows)
    (hitem : item ∈ items) : ¬"-[]".toList <:+ item.1.toList := by
  refine hrc.not_array (x := item.2) ?_
  rw [String.ofList_toList]
  exact (value_iff_mem hitems).mpr hitem

/-- A table is restored whose lines are all read as they are meant. -/
theorem reloads_of_rereadable (hrc : Produced host₀ rc)
    (hlines : ∀ item ∈ items, OneLine item.1 ∧ OneLine item.2) (hitems : items.Perm rc.items.rows)
    (h : ∀ item ∈ items, Rereadable host item) : Reloads host rc items := by
  have hunique : (items.map Prod.fst).Nodup := (hitems.map Prod.fst).nodup_iff.mpr rc.items.unique
  obtain ⟨hstored, hother⟩ := @value_storeAll .empty items hunique
  have hload : Loads host (.ofText (dump items)) bareLoader .initial
      (.ok { bareLoader with rc := storeAll .empty items }) :=
    loads_dump hlines (fun item hitem => hrc.items_not_array hitems hitem) h rfl rfl
  refine ⟨_, hload, fun k => ?_⟩
  cases hk : rc.value k with
  | some x => exact hstored _ ((value_iff_mem hitems).mp hk)
  | none =>
    refine hother k fun hmem => ?_
    obtain ⟨item, hitem, rfl⟩ := List.mem_map.mp hmem
    rw [(value_iff_mem hitems).mpr hitem] at hk
    cases hk

end Restored

section Necessary

/-- A line without variables that is no include: the environment and files do not help. -/
structure SelfContained (item : String × String) : Prop where
  noVariable : '$' ∉ dumpLine item
  noInclude : lineKind (bufOf (dumpLine item)) ≠ .included

theorem count_dumpLine (item : String × String) :
    (dumpLine item).count '\\' = (item.1.toList ++ item.2.toList).count '\\' := by
  have hside (s : List Char) : (dumpSide s).count '\\' = s.count '\\' := by
    rw [dumpSide]
    split_ifs
    · rw [List.count_cons_of_ne (by decide), List.count_append]
      rfl
    · rfl
  rw [dumpLine, List.count_append, List.count_cons_of_ne (by decide), hside, hside,
    List.count_append]

theorem bufOf_sublist (line : List Char) : (bufOf line).Sublist line :=
  (List.dropWhile_sublist _).trans (List.takeWhile_sublist _)

theorem not_mem_of_dumpLine {c : Char} (h : c ∉ dumpLine item) :
    c ∉ item.1.toList ++ item.2.toList := by
  have hside {s : List Char} (hc : c ∈ s) : c ∈ dumpSide s := by
    rw [dumpSide]
    split_ifs
    · exact List.mem_cons_of_mem _ (List.mem_append_left _ hc)
    · exact hc
  rw [dumpLine, List.mem_append, List.mem_cons, not_or, not_or] at h
  rw [List.mem_append, not_or]
  exact ⟨fun hc => h.1 (hside hc), fun hc => h.2.2 (hside hc)⟩

/-- Every item of a table that is restored is stored by the line of some item. -/
theorem Reloads.source (h : Reloads host rc items)
    (hlines : ∀ item ∈ items, OneLine item.1 ∧ OneLine item.2) (hitems : items.Perm rc.items.rows)
    (hself : ∀ item ∈ items, SelfContained item) (hitem : item ∈ items) :
    ∃ item' ∈ items, ShortLine (dumpLine item') ∧ lineKind (bufOf (dumpLine item')) = .key ∧
      Assigned host (bufOf (dumpLine item')) item.1.toList item.2.toList := by
  obtain ⟨l, hload, hvalue⟩ := h
  have hx : l.rc.value item.1 = some item.2 := by
    rw [hvalue, value_iff_mem hitems]
    exact hitem
  have hfree : ∀ line ∈ items.map dumpLine, '\n' ∉ line ∧ lineKind (bufOf line) ≠ .included := by
    intro line hline
    obtain ⟨item', hitem', rfl⟩ := List.mem_map.mp hline
    exact ⟨dumpLine_absent (hlines item' hitem').1.1 (hlines item' hitem').2.1 (by decide)
      (by decide) (by decide), (hself item' hitem').noInclude⟩
  rcases loads_assigned hfree hload hx with hold | ⟨line, hline, hshort, hkind, name, text,
    hassigned, hk, hx⟩
  · cases hold
  · obtain ⟨item', hitem', rfl⟩ := List.mem_map.mp hline
    rw [hk, hx, String.toList_ofList, String.toList_ofList]
    exact ⟨item', hitem', hshort, hkind, hassigned⟩

/-- A table that is restored has no active characters: with the most backslashes that any line has,
half as many can be stored, and without backslashes no brace. -/
theorem Reloads.inactive (h : Reloads host rc items)
    (hlines : ∀ item ∈ items, OneLine item.1 ∧ OneLine item.2) (hitems : items.Perm rc.items.rows)
    (hself : ∀ item ∈ items, SelfContained item) (hitem : item ∈ items) :
    ∀ c ∈ item.1.toList ++ item.2.toList, c ∉ ACTIVE := by
  have hsource {item : String × String} (hitem : item ∈ items) : ∃ item' ∈ items,
      weight (item.1.toList ++ item.2.toList) ≤ (dumpLine item').count '\\' := by
    obtain ⟨item', hitem', _, _, rc', key, val, hhands, hwrites⟩ :=
      h.source hlines hitems hself hitem
    have hbuf := bufOf_sublist (dumpLine item')
    have hvar : '$' ∉ bufOf (dumpLine item') := fun hmem =>
      (hself item' hitem').noVariable (hbuf.subset hmem)
    refine ⟨item', hitem', ?_⟩
    calc
      weight (item.1.toList ++ item.2.toList) ≤ weight (key ++ val) := hwrites.weight_le
      _ ≤ (bufOf (dumpLine item')).count '\\' := hhands.weight_le hvar
      _ ≤ (dumpLine item').count '\\' := hbuf.count_le _
  have hnone {item : String × String} (hitem : item ∈ items) :
      (dumpLine item).count '\\' = 0 := by
    cases htop : items.argmax fun item => (dumpLine item).count '\\' with
    | none =>
      rw [List.argmax_eq_none] at htop
      rw [htop] at hitem
      exact absurd hitem List.not_mem_nil
    | some top =>
      have hmost {item : String × String} (hitem : item ∈ items) :
          (dumpLine item).count '\\' ≤ (dumpLine top).count '\\' :=
        List.le_of_mem_argmax (f := fun item => (dumpLine item).count '\\') hitem htop
      -- a line with at least twice as many as the most
      obtain ⟨item', hitem', hle⟩ := hsource (List.argmax_mem htop)
      have htwice : 2*(dumpLine top).count '\\' ≤ weight (top.1.toList ++ top.2.toList) := by
        rw [count_dumpLine, weight]
        omega
      have hitem'_le := hmost hitem'
      have hitem_le := hmost hitem
      omega
  obtain ⟨item', hitem', hle⟩ := hsource hitem
  rw [hnone hitem', Nat.le_zero, weight_eq_zero] at hle
  obtain ⟨hescape, hopen, hclose⟩ := hle
  have hvar := not_mem_of_dumpLine (hself item hitem).noVariable
  intro c hc
  simp only [ACTIVE, List.mem_cons, List.not_mem_nil, or_false, not_or]
  exact ⟨ne_of_mem_of_not_mem hc hescape, ne_of_mem_of_not_mem hc hopen,
    ne_of_mem_of_not_mem hc hclose, ne_of_mem_of_not_mem hc hvar⟩

/-- The blanks in front are gone, and the tag is still there. -/
theorem dropWhile_tag (s rest : List Char) : (s ++ '=' :: rest).dropWhile isBlankOrTab =
    s.dropWhile isBlankOrTab ++ '=' :: rest := by
  rw [List.dropWhile_append]
  split_ifs with hnil
  · rw [List.isEmpty_iff.mp hnil]
    rfl
  · rfl

/-- Of a key without active characters and blanks the reading has no tabs and no tag. -/
theorem bare_reading (hkey : OneLine item.1) (hval : OneLine item.2)
    (hactive : ∀ c ∈ item.1.toList, c ∉ ACTIVE) (hbare : ' ' ∉ item.1.toList)
    (h : HandsOn host rc (bufOf (dumpLine item)) key val) :
    ∀ c ∈ key, isBlankOrTab c = false ∧ c ≠ '=' := by
  have hzero := dumpLine_absent hkey.2 hval.2 (by decide) (by decide) (by decide)
  -- the first tag of the line is in the key, or the one that `dump` writes
  have hsplit : ∃ front back, item.1.toList.dropWhile isBlankOrTab ++ ['='] =
      front ++ '=' :: back ∧ '=' ∉ front :=
    List.eq_append_cons_of_mem (List.mem_append_right _ (List.mem_singleton_self _))
  obtain ⟨front, back, hsplit, htag⟩ := hsplit
  have hfront : ∀ c ∈ front, c ∉ ACTIVE ∧ c ≠ '=' := by
    intro c hc
    have hne : c ≠ '=' := ne_of_mem_of_not_mem hc htag
    have hmem : c ∈ item.1.toList.dropWhile isBlankOrTab ++ ['='] := by
      rw [hsplit]
      exact List.mem_append_left _ hc
    rcases List.mem_append.mp hmem with hmem | hmem
    · exact ⟨hactive c ((List.dropWhile_sublist _).subset hmem), hne⟩
    · exact absurd (List.mem_singleton.mp hmem) hne
  have hbuf : bufOf (dumpLine item) =
      front ++ '=' :: (back ++ dumpSide item.2.toList) := by
    rw [bufOf, takeWhile_absent hzero, dumpLine, dumpSide, if_neg hbare, dropWhile_tag,
      List.append_cons, hsplit, List.append_assoc, List.cons_append]
  rw [hbuf] at h
  rw [h.key_eq (readsKey_front hfront)]
  intro c hc
  obtain ⟨hmem, hblank⟩ := List.mem_filter.mp hc
  exact ⟨by simpa using hblank, (hfront c hmem).2⟩

/-- A bare key with a tab or a tag in it cannot be stored by any line. -/
theorem Reloads.bare (h : Reloads host rc items) (hrc : Produced host₀ rc)
    (hlines : ∀ item ∈ items, OneLine item.1 ∧ OneLine item.2) (hitems : items.Perm rc.items.rows)
    (hself : ∀ item ∈ items, SelfContained item) (hitem : item ∈ items)
    (hbare : ' ' ∉ item.1.toList) : '\t' ∉ item.1.toList ∧ '=' ∉ item.1.toList := by
  obtain ⟨item', hitem', _, _, rc', key, val, hhands, hwrites⟩ :=
    h.source hlines hitems hself hitem
  obtain ⟨hkey, hval⟩ := hlines item' hitem'
  have hactive : ∀ c ∈ item'.1.toList, c ∉ ACTIVE := fun c hc =>
    h.inactive hlines hitems hself hitem' c (List.mem_append_left _ hc)
  by_cases hblank : ' ' ∈ item'.1.toList
  · -- the key of that line is in braces, and is stored with its blanks
    exfalso
    have hreads : ReadsKey (dumpSide item'.1.toList) item'.1.toList :=
      readsKey_dumpSide hactive fun h => absurd hblank h
    rw [bufOf_dumpLine hkey hval fun h => absurd hblank h] at hhands
    rw [hhands.key_eq hreads] at hwrites
    rw [(hwrites.plain_of (hrc.items_not_array hitems hitem')).2.1] at hbare
    exact hbare hblank
  · -- a bare key is stored without tabs and tags, as an array's names are
    have hreading := bare_reading hkey hval hactive hblank hhands
    have habsent {c : Char} (hc : c ∉ key) (hcount : c ∉ "-count".toList)
        (hdigit : c.isDigit = false) : c ∉ item.1.toList := by
      intro hmem
      rcases hwrites.name_char hmem with hmem | hmem | htrue
      · exact hc hmem
      · exact hcount hmem
      · rw [hdigit] at htrue
        cases htrue
    refine ⟨habsent (fun hmem => ?_) (by decide) rfl,
      habsent (fun hmem => (hreading _ hmem).2 rfl) (by decide) rfl⟩
    exact absurd (hreading _ hmem).1 (by decide)

/-- Every item of a table that is restored is stored by its own line. -/
theorem Reloads.own (h : Reloads host rc items) (hrc : Produced host₀ rc)
    (hlines : ∀ item ∈ items, OneLine item.1 ∧ OneLine item.2) (hitems : items.Perm rc.items.rows)
    (hself : ∀ item ∈ items, SelfContained item) (hitem : item ∈ items) :
    ShortLine (dumpLine item) ∧ lineKind (bufOf (dumpLine item)) = .key ∧
      isArrayKey host item.1.toList = false ∧
      ∃ rc' : Apprc, HandsOn host rc' (dumpLine item) item.1.toList item.2.toList := by
  obtain ⟨item', hitem', hshort, hkind, rc', key, val, hhands, hwrites⟩ :=
    h.source hlines hitems hself hitem
  obtain ⟨hkey, hval⟩ := hlines item' hitem'
  have hbare := h.bare hrc hlines hitems hself hitem'
  have hactive : ∀ c ∈ item'.1.toList, c ∉ ACTIVE := fun c hc =>
    h.inactive hlines hitems hself hitem' c (List.mem_append_left _ hc)
  rw [bufOf_dumpLine hkey hval fun hblank => (hbare hblank).1] at hhands
  obtain rfl := hhands.key_eq (readsKey_dumpSide hactive hbare)
  obtain ⟨harray, hname, rfl⟩ := hwrites.plain_of (hrc.items_not_array hitems hitem')
  -- a key has one value
  have hsame : item = item' := by
    have hfst : item.1 = item'.1 := String.toList_inj.mp hname
    have hsome := (value_iff_mem hitems).mpr hitem
    rw [hfst, (value_iff_mem hitems).mpr hitem', Option.some.injEq] at hsome
    exact Prod.ext hfst hsome.symm
  subst hsame
  exact ⟨hshort, hkind, harray, rc', hhands⟩

/-- A text without the blanks at its ends. -/
theorem trimmed_middle (s : List Char) : ∃ behind mid trail, s = behind ++ (mid ++ trail) ∧
    Blanks behind ∧ Blanks trail ∧ (∀ c, mid.head? = some c → isBlankOrTab c = false) ∧
    ∀ c, mid.getLast? = some c → isBlankOrTab c = false := by
  refine ⟨s.takeWhile isBlankOrTab, (s.dropWhile isBlankOrTab).rdropWhile isBlankOrTab,
    (s.dropWhile isBlankOrTab).rtakeWhile isBlankOrTab, ?_, fun c hc => List.mem_takeWhile_imp hc,
    fun c hc => List.mem_rtakeWhile_imp hc, ?_, ?_⟩
  · rw [List.rdropWhile_append_rtakeWhile, List.takeWhile_append_dropWhile]
  · intro c hc
    obtain ⟨back, hback⟩ := List.rdropWhile_prefix isBlankOrTab (s.dropWhile isBlankOrTab)
    have hhead := List.head?_dropWhile_not isBlankOrTab s
    rw [← hback, List.head?_append, hc] at hhead
    simpa using hhead
  · intro c hc
    have hne : (s.dropWhile isBlankOrTab).rdropWhile isBlankOrTab ≠ [] := by
      intro hnil
      rw [hnil] at hc
      cases hc
    rw [List.getLast?_eq_some_getLast hne] at hc
    obtain rfl := Option.some.inj hc
    simpa using List.rdropWhile_last_not _ _ hne

/-- A bare value is read without the blanks at its ends. -/
theorem bare_ends {keyText : List Char} (h : HandsOn host rc (keyText ++ '=' :: s) key s)
    (hkey : ReadsKey keyText key) (hactive : ∀ c ∈ s, c ∉ ACTIVE) (hnewline : '\n' ∉ s) :
    s.head? ≠ some '\t' ∧ s.getLast? ≠ some '\t' := by
  obtain ⟨behind, mid, trail, hsplit, hbehind, htrail, hfirst, hlast⟩ := trimmed_middle s
  have hsub {c : Char} (hc : c ∈ mid) : c ∈ s := by
    rw [hsplit]
    exact List.mem_append_right _ (List.mem_append_left _ hc)
  have hnone : Blanks [] := fun _ h => absurd h List.not_mem_nil
  have hmid : ReadsValue mid mid := by
    refine readsValue_plain (fun c hc => hactive c (hsub hc)) hfirst fun c hc => ?_
    rw [isTrimmed, hlast c hc,
      beq_eq_false_iff_ne.mpr (ne_of_mem_of_not_mem (hsub (List.mem_of_getLast? hc)) hnewline)]
    rfl
  have hsides : HandsOn host rc (keyText ++ ([] ++ '=' :: (behind ++ (mid ++ trail)))) key mid :=
    handsOn_sides hkey hmid hnone hbehind htrail
  rw [List.nil_append, ← hsplit] at hsides
  rw [(h.unique hsides).2]
  exact ⟨fun htab => absurd (hfirst _ htab) (by decide),
    fun htab => absurd (hlast _ htab) (by decide)⟩

/-- The lines of a table that is restored are read as they are meant. -/
theorem Reloads.rereadable (h : Reloads host rc items) (hrc : Produced host₀ rc)
    (hlines : ∀ item ∈ items, OneLine item.1 ∧ OneLine item.2) (hitems : items.Perm rc.items.rows)
    (hself : ∀ item ∈ items, SelfContained item) (hitem : item ∈ items) :
    Rereadable host item := by
  obtain ⟨hshort, hkind, harray, rc', hhands⟩ := h.own hrc hlines hitems hself hitem
  have hactive := h.inactive hlines hitems hself hitem
  have hkey : ∀ c ∈ item.1.toList, c ∉ ACTIVE := fun c hc =>
    hactive c (List.mem_append_left _ hc)
  have hval : ∀ c ∈ item.2.toList, c ∉ ACTIVE := fun c hc =>
    hactive c (List.mem_append_right _ hc)
  have hbare := h.bare hrc hlines hitems hself hitem
  refine ⟨hshort.2, hkind, hkey, hbare, fun _ => harray, hval, fun hblank => ?_⟩
  have hvalue : dumpSide item.2.toList = item.2.toList := if_neg hblank
  rw [dumpLine, hvalue] at hhands
  exact bare_ends hhands (readsKey_dumpSide hkey hbare) hval (hlines item hitem).2.1

end Necessary

section Dump

/-- A table is restored when all its lines are read as they are meant, and no other is that has
neither a variable nor an include in its lines. -/
theorem dump_reloads (hrc : Produced host₀ rc) (hitems : items.Perm rc.items.rows)
    (hlines : ∀ item ∈ items, OneLine item.1 ∧ OneLine item.2) :
    ((∀ item ∈ items, Rereadable host item) → Reloads host rc items) ∧
    ((∀ item ∈ items, SelfContained item) → Reloads host rc items →
      ∀ item ∈ items, Rereadable host item) :=
  ⟨reloads_of_rereadable hrc hlines hitems, fun hself h _ hitem =>
    h.rereadable hrc hlines hitems hself hitem⟩

-- a variable of the environment that holds its own text is written back as it was
example : ∃ l, Loads ⟨fun _ => none, fun _ => some "$$X", fun _ _ => '\x00'⟩
    (.ofText (dump [("k", "$$X")])) bareLoader .initial (.ok l) ∧
      l.rc.value "k" = some "$$X" := ⟨⟨Apprc.empty.store ['k'] "$$X".toList, 0⟩, ⟨2, rfl⟩, rfl⟩

/-- A brace in a value opens a literal. -/
theorem brace_lost : ¬∀ (host : Host) (rc : Apprc) (items : List (String × String)),
    Produced host rc → items.Perm rc.items.rows →
    (∀ item ∈ items, OneLine item.1 ∧ OneLine item.2) → Reloads host rc items := by
  intro h
  have hread : Loads bareHost (.ofText "abc=\\\x7b\n".toList) bareLoader .initial
      (.ok ⟨Apprc.empty.store "abc".toList ['\x7b'], 0⟩) := ⟨2, rfl⟩
  obtain ⟨l, hload, _⟩ := h bareHost _ [("abc", "\x7b")] (.text hread) (.refl _)
    (fun item hitem => by
      rw [List.mem_singleton.mp hitem]
      exact ⟨⟨by decide, by decide⟩, by decide, by decide⟩)
  have hfail : Loads bareHost (.ofText (dump [("abc", "\x7b")])) bareLoader .initial
      (.error (.located 1 (.unbalancedOpen "abc=\x7b"))) := ⟨2, rfl⟩
  cases hload.unique hfail

/-- Blanks in keys and values. -/
theorem dump_reloads_example : Reloads bareHost
    ((Apprc.empty.store "abc".toList "x y".toList).store "a b".toList "z".toList)
    [("a b", "z"), ("abc", "x y")] := by
  have hread : Loads bareHost (.ofText "abc = x y\n\x7ba b\x7d = z\n".toList) bareLoader .initial
      (.ok ⟨(Apprc.empty.store "abc".toList "x y".toList).store "a b".toList "z".toList, 0⟩) :=
    ⟨3, rfl⟩
  refine (dump_reloads (.text hread) (List.Perm.swap _ _ _) ?_).1 ?_
  · rw [List.forall_mem_cons, List.forall_mem_singleton]
    exact ⟨⟨⟨by decide, by decide⟩, by decide, by decide⟩, ⟨by decide, by decide⟩, by decide,
      by decide⟩
  · have hkey : Rereadable bareHost ("a b", "z") :=
      ⟨by decide, rfl, forall_mem_of_all (by decide), fun h => absurd (by decide) h, by decide,
        forall_mem_of_all (by decide), by decide⟩
    have hval : Rereadable bareHost ("abc", "x y") :=
      ⟨by decide, rfl, forall_mem_of_all (by decide), by decide, by decide,
        forall_mem_of_all (by decide), fun h => absurd (by decide) h⟩
    exact List.forall_mem_cons.mpr ⟨hkey, List.forall_mem_singleton.mpr hval⟩

end Dump

end S3Dhcpd.RcFile
