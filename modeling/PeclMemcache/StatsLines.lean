import PeclMemcache.NestedArrays
import PeclMemcache.Rescheduling

set_option autoImplicit false

/-! # Lines of statistics

The parsers of the lines that `stats` is answered with, on the places of the line. The end they are
passed is the place of the last byte, and a search ends in front of its end, so the last byte is never
looked at. A search whose end comes before its start runs through all the memory behind the line. -/

namespace PeclMemcache

open NestedArrays

/-! ## Results -/

/-- A result that is not an array. -/
inductive StatsScalar
  | bool (b : Bool)
  | string (s : Bytes)
  deriving DecidableEq, Repr

/-- The result of a call: `false` at first, then an array. -/
abbrev StatsValue : Type := Value ArrayKey StatsScalar

/-- `array_init`, if the value is no array. -/
def StatsValue.toArray : StatsValue → StatsValue
  | .scalar _ => .array []
  | .array entries => .array entries

/-- `is_numeric_string`: the number of an integer that fits, nothing inside for another number. -/
def isNumericString (s : Bytes) : Option (Option Int) :=
  let trimmed := ((s.dropWhile isSpace).reverse.dropWhile isSpace).reverse
  let negative := trimmed.head? = some 45
  let body := if negative ∨ trimmed.head? = some 43 then trimmed.tail else trimmed
  let whole := body.takeWhile isDigit
  let rest := body.dropWhile isDigit
  if rest = [] then
    if whole = [] then none
    else
      let n : Int := if negative then -digitsValue whole else digitsValue whole
      if -2 ^ 63 ≤ n ∧ n < 2 ^ 63 then some (some n) else some none
  else
    let point := rest.head? = some 46
    let fraction := if point then rest.tail.takeWhile isDigit else []
    let rest := if point then rest.tail.dropWhile isDigit else rest
    let exponent := if rest.tail.head? = some 45 ∨ rest.tail.head? = some 43 then rest.tail.tail
      else rest.tail
    if whole = [] ∧ fraction = [] then none
    else if rest = [] then some none
    else if (rest.head? = some 101 ∨ rest.head? = some 69) ∧ exponent ≠ [] ∧ exponent.all isDigit then
      some none
    else none

/-- The key of the array that `mmc_stats_parse_stat` takes for a subkey: that of an integer the subkey
    is read as, if there is one (the integer is 0 for any other number), else the subkey itself. -/
def selectSubkey (result : StatsValue) (key : Bytes) : ArrayKey :=
  match isNumericString key with
  | some n => if (result.find (.long (n.getD 0))).isSome then .long (n.getD 0) else
      if (result.find (.string key)).isSome then .string key else zendSymtableKey key
  | none => if (result.find (.string key)).isSome then .string key else zendSymtableKey key

/-! ## Searches and copies -/

/-- What goes wrong: the end of a search comes before its start, a byte outside of the line is looked
    at or copied, or a loop does not end. -/
inductive StatsFault
  | backwards
  | outside
  | endless
  deriving DecidableEq, Repr

/-- `php_memnstr` for a single byte: the first place from `start` on and in front of `stop`. -/
def phpMemnstr (line : Bytes) (start : Nat) (needle : UInt8) (stop : Nat) :
    Except StatsFault (Option Nat) :=
  if stop < start then .error .backwards
  else if line.length < stop then .error .outside
  else .ok ((((line.take stop).drop start).findIdx? (· = needle)).map (start + ·))

/-- Copy `n` bytes of a line whose last byte is at `stop`. -/
def copyBytes (line : Bytes) (stop start n : Nat) : Except StatsFault Bytes :=
  if start + n ≤ stop + 1 ∧ stop < line.length then .ok ((line.drop start).take n) else .error .outside

/-- The byte at a place of the line. -/
def byteAt (s : Bytes) (stop i : Nat) : Except StatsFault UInt8 :=
  match s[i]? with
  | some b => if i ≤ stop then .ok b else .error .outside
  | none => .error .outside

/-! ## The parsers -/

/-- `mmc_stats_parse_stat`: the value that is returned and the result. -/
def parseStatFrom (line : Bytes) (stop : Nat) :
    Nat → Nat → StatsValue → Except StatsFault (Bool × StatsValue)
  | 0, _, _ => .error .endless
  | fuel + 1, start, result => do
    let result := result.toArray
    match ← phpMemnstr line start 32 stop with
    | none => return (false, result)
    | some space =>
      match ← phpMemnstr line start 58 (space - 1) with
      | some colon =>
        let key ← copyBytes line stop start (colon - start)
        let k := selectSubkey result key
        let (done, element) ←
          parseStatFrom line stop fuel (colon + 1) ((result.find k).getD (.array []))
        return (done, result.set k element)
      | none =>
        let key ← copyBytes line stop start (space - start)
        let value ← copyBytes line stop (space + 1) (stop - space)
        return (true, result.set (zendSymtableKey key) (.scalar (.string value)))

/-- `mmc_stats_parse_stat` on a line from `start` to `stop`. -/
def mmcStatsParseStat (line : Bytes) (start stop : Nat) (result : StatsValue) :
    Except StatsFault (Bool × StatsValue) :=
  parseStatFrom line stop (stop + 1) start result

/-- `do value++ while (*value == ' ' && value <= end)`. -/
def skipSpaces (line : Bytes) (stop : Nat) : Nat → Nat → Except StatsFault Nat
  | 0, _ => .error .endless
  | fuel + 1, value => do
    let b ← byteAt line stop (value + 1)
    if b = 32 ∧ value + 1 ≤ stop then skipSpaces line stop fuel (value + 1) else return value + 1

/-- The value at a place is added to those found so far, if a space is behind it. -/
def addItemValue (line : Bytes) (stop value : Nat) (element : List Bytes) :
    Except StatsFault (List Bytes) :=
  if value ≤ stop then do
    match ← phpMemnstr line value 32 stop with
    | none => return element
    | some valueEnd =>
      let b ← copyBytes line stop value (valueEnd - value)
      return element ++ [b]
  else return element

/-- The loop over the values of an item, with the values found so far; `value` is the delimiter. -/
def itemValues (line : Bytes) (stop : Nat) : Nat → Nat → List Bytes → Except StatsFault (List Bytes)
  | 0, _, _ => .error .endless
  | fuel + 1, value, element =>
    if stop < value then return element
    else do
      let value ← skipSpaces line stop (stop + 1) value
      let element ← addItemValue line stop value element
      match ← phpMemnstr line (value + 1) 59 stop with
      | none => return element
      | some value => itemValues line stop fuel value element

/-- `add_next_index_stringl` for each of the values. -/
def indexedArray (values : List Bytes) : StatsValue :=
  .array (values.zipIdx.map fun v => (.long v.2, .scalar (.string v.1)))

/-- `mmc_stats_parse_item` on a line from `start` to `stop`. -/
def mmcStatsParseItem (line : Bytes) (start stop : Nat) (result : StatsValue) :
    Except StatsFault (Bool × StatsValue) := do
  let result := result.toArray
  match ← phpMemnstr line start 32 stop with
  | none => return (false, result)
  | some space =>
    let element ←
      match ← phpMemnstr line space 91 stop with
      | none => pure []
      | some value => itemValues line stop (stop + 1) value []
    let key ← copyBytes line stop start (space - start)
    return (true, result.set (zendSymtableKey key) (indexedArray element))

/-! ## Searches -/

/-- A search through `mid`. -/
theorem phpMemnstr_window (front mid back : Bytes) (c : UInt8) :
    phpMemnstr (front ++ mid ++ back) front.length c (front.length + mid.length)
      = .ok ((mid.findIdx? (· = c)).map (front.length + ·)) := by
  have hwindow : ((front ++ mid ++ back).take (front.length + mid.length)).drop front.length = mid := by
    rw [← List.length_append, List.take_left, List.drop_left]
  rw [phpMemnstr, if_neg (by omega), if_neg (by simp), hwindow]

/-- The byte is not found. -/
theorem phpMemnstr_none {front mid : Bytes} (back : Bytes) {c : UInt8} (h : c ∉ mid) {start stop : Nat}
    (hstart : start = front.length) (hstop : stop = front.length + mid.length) :
    phpMemnstr (front ++ mid ++ back) start c stop = .ok none := by
  have hnone : mid.findIdx? (· = c) = none := by
    rw [List.findIdx?_eq_none_iff]
    intro b hb
    exact decide_eq_false fun heq => h (heq ▸ hb)
  rw [hstart, hstop, phpMemnstr_window, hnone]
  rfl

/-- The byte is found at its first place. -/
theorem phpMemnstr_some {front mid : Bytes} (later back : Bytes) {c : UInt8} (h : c ∉ mid)
    {start stop : Nat} (hstart : start = front.length)
    (hstop : stop = front.length + mid.length + 1 + later.length) :
    phpMemnstr (front ++ (mid ++ c :: later) ++ back) start c stop
      = .ok (some (front.length + mid.length)) := by
  have hfirst : (mid ++ c :: later).findIdx? (· = c) = some mid.length := by
    have hnone : mid.findIdx? (· = c) = none := by
      rw [List.findIdx?_eq_none_iff]
      intro b hb
      exact decide_eq_false fun heq => h (heq ▸ hb)
    rw [List.findIdx?_append, hnone, List.findIdx?_cons]
    simp
  have hend : stop = front.length + (mid ++ c :: later).length := by
    rw [List.length_append, List.length_cons]
    omega
  rw [hstart, hend, phpMemnstr_window, hfirst]
  rfl

theorem phpMemnstr_backwards (line : Bytes) (c : UInt8) {start stop : Nat} (h : stop < start) :
    phpMemnstr line start c stop = .error .backwards :=
  if_pos h

theorem copyBytes_window (front mid back : Bytes) {start stop n : Nat} (hstart : start = front.length)
    (hn : n = mid.length) (hstop : start + n ≤ stop + 1) (hline : stop < (front ++ mid ++ back).length) :
    copyBytes (front ++ mid ++ back) stop start n = .ok mid := by
  rw [copyBytes, if_pos ⟨hstop, hline⟩, hstart, hn, List.append_assoc, List.drop_left, List.take_left]

/-- The bytes up to the last one, which is not looked at, either do not have `c` or are cut at it. -/
theorem search_cases (c : UInt8) (s : Bytes) :
    c ∉ s.dropLast ∨ ∃ mid later, s = mid ++ c :: later ∧ c ∉ mid ∧ later ≠ [] := by
  by_cases h : c ∈ s.dropLast
  · obtain ⟨mid, later, hs, hmid⟩ := List.eq_append_cons_of_mem h
    have hne : s ≠ [] := by
      rintro rfl
      exact absurd h List.not_mem_nil
    refine .inr ⟨mid, later ++ [s.getLast hne], ?_, hmid, by simp⟩
    calc s = s.dropLast ++ [s.getLast hne] := (List.dropLast_append_getLast hne).symm
      _ = mid ++ c :: (later ++ [s.getLast hne]) := by rw [hs]; simp
  · exact .inl h

section Suffix

/-! A line whose bytes from `start` to `stop` are `s`. -/

variable {front s back : Bytes} {start stop : Nat} (hstart : start = front.length)
  (hstop : stop + 1 = front.length + s.length)

include hstart hstop

theorem search_none {c : UInt8} (hs : s ≠ []) (h : c ∉ s.dropLast) :
    phpMemnstr (front ++ s ++ back) start c stop = .ok none := by
  have hlast : front ++ s ++ back = front ++ s.dropLast ++ (s.getLast hs :: back) := by
    conv_lhs => rw [← List.dropLast_append_getLast hs]
    simp
  have hpos := List.length_pos_of_ne_nil hs
  rw [hlast]
  refine phpMemnstr_none _ h hstart ?_
  rw [List.length_dropLast]
  omega

theorem search_some {c : UInt8} {mid later : Bytes} (hs : s = mid ++ c :: later) (hmid : c ∉ mid)
    (hlater : later ≠ []) :
    phpMemnstr (front ++ s ++ back) start c stop = .ok (some (front.length + mid.length)) := by
  have hlast : front ++ s ++ back
      = front ++ (mid ++ c :: later.dropLast) ++ (later.getLast hlater :: back) := by
    conv_lhs => rw [hs, ← List.dropLast_append_getLast hlater]
    simp
  have hpos := List.length_pos_of_ne_nil hlater
  rw [hlast]
  refine phpMemnstr_some _ _ hmid hstart ?_
  rw [hs, List.length_append, List.length_cons] at hstop
  rw [List.length_dropLast]
  omega

theorem search_empty (c : UInt8) (line : Bytes) (hs : s = []) :
    phpMemnstr line start c stop = .error .backwards := by
  refine phpMemnstr_backwards line c ?_
  rw [hs, List.length_nil] at hstop
  omega

end Suffix

/-! ## `STAT` lines -/

/-- The subkeys of a name, a colon at its end being a part of the last one, with `cur` before them. -/
def subkeysFrom (cur : Bytes) : Bytes → List Bytes
  | [] => [cur]
  | [b] => [cur ++ [b]]
  | b :: c :: rest => if b = 58 then cur :: subkeysFrom [] (c :: rest) else subkeysFrom (cur ++ [b]) (c :: rest)

/-- The subkeys of a name. -/
def subkeys (name : Bytes) : List Bytes := subkeysFrom [] name

/-- Enter a value under the subkeys, as the code does. -/
def enterStat (value : Bytes) : List Bytes → StatsValue → StatsValue
  | [], result => result
  | [key], result => result.toArray.set (zendSymtableKey key) (.scalar (.string value))
  | key :: keys, result =>
    let k := selectSubkey result.toArray key
    result.toArray.set k (enterStat value keys ((result.toArray.find k).getD (.array [])))

theorem subkeysFrom_cons {b : UInt8} {rest : Bytes} (cur : Bytes) (hrest : rest ≠ []) :
    subkeysFrom cur (b :: rest)
      = if b = 58 then cur :: subkeysFrom [] rest else subkeysFrom (cur ++ [b]) rest := by
  cases rest with
  | nil => exact absurd rfl hrest
  | cons c rest => rfl

theorem subkeysFrom_ne_nil (name cur : Bytes) : subkeysFrom cur name ≠ [] := by
  induction name generalizing cur with
  | nil => simp [subkeysFrom]
  | cons b rest ih =>
    cases rest with
    | nil => simp [subkeysFrom]
    | cons c rest =>
      rw [subkeysFrom]
      split
      · simp
      · exact ih _

theorem enterStat_cons (value key : Bytes) {keys : List Bytes} (hkeys : keys ≠ [])
    (result : StatsValue) :
    enterStat value (key :: keys) result
      = result.toArray.set (selectSubkey result.toArray key) (enterStat value keys
          ((result.toArray.find (selectSubkey result.toArray key)).getD (.array []))) := by
  cases keys with
  | nil => exact absurd rfl hkeys
  | cons key' keys => rfl

theorem subkeysFrom_colon {mid later : Bytes} (hmid : 58 ∉ mid) (hlater : later ≠ []) (cur : Bytes) :
    subkeysFrom cur (mid ++ 58 :: later) = (cur ++ mid) :: subkeys later := by
  induction mid generalizing cur with
  | nil => rw [List.nil_append, subkeysFrom_cons cur hlater, if_pos rfl, List.append_nil, subkeys]
  | cons b mid ih =>
    rw [List.mem_cons, not_or] at hmid
    rw [List.cons_append, subkeysFrom_cons cur (by simp), if_neg (Ne.symm hmid.1), ih hmid.2]
    simp

theorem subkeysFrom_last {name : Bytes} (hne : name ≠ []) (h : 58 ∉ name.dropLast) (cur : Bytes) :
    subkeysFrom cur name = [cur ++ name] := by
  induction name generalizing cur with
  | nil => exact absurd rfl hne
  | cons b rest ih =>
    cases rest with
    | nil => rfl
    | cons c rest =>
      rw [List.dropLast_cons_cons, List.mem_cons, not_or] at h
      rw [subkeysFrom_cons cur (by simp), if_neg (Ne.symm h.1), ih (by simp) h.2]
      simp

/-- **A value is entered** under the subkeys of its name, by induction on the fuel: a turn takes a
    subkey off. -/
theorem parseStatFrom_enters {name value : Bytes} (hspace : 32 ∉ name) (hvalue : value ≠ [])
    (back : Bytes) {fuel : Nat} : ∀ {front name' : Bytes} {start stop : Nat} (result : StatsValue),
    name' <:+ name → name' ≠ [] → start = front.length → 0 < start →
    stop + 1 = front.length + (name' ++ 32 :: value).length → name'.length < fuel →
    parseStatFrom (front ++ (name' ++ 32 :: value) ++ back) stop fuel start result
      = .ok (true, enterStat value (subkeys name') result) := by
  induction fuel with
  | zero => intro _ _ _ _ _ _ _ _ _ _ hfuel; omega
  | succ fuel ih =>
    intro front name' start stop result hsuffix hname hstart hpos hstop hfuel
    have hspace' : 32 ∉ name' := fun h => hspace (hsuffix.mem h)
    have hlength : (name' ++ 32 :: value).length = name'.length + 1 + value.length := by
      rw [List.length_append, List.length_cons]
      omega
    have hnamePos := List.length_pos_of_ne_nil hname
    have hspaceAt := @search_some front _ back start stop hstart hstop 32 name' value rfl hspace' hvalue
    -- the search for a colon ends in front of the last byte of the name
    have hline : front ++ (name' ++ 32 :: value) ++ back = front ++ name' ++ (32 :: value ++ back) := by
      simp
    have hcolonStop : front.length + name'.length - 1 + 1 = front.length + name'.length := by omega
    rcases search_cases 58 name' with hcolon | ⟨mid, later, hname', hmid, hlater⟩
    · have hcolonAt := @search_none front name' (32 :: value ++ back) start _ hstart hcolonStop 58 hname
        hcolon
      have hkey := @copyBytes_window front name' (32 :: value ++ back) start stop
        (front.length + name'.length - start) hstart (by omega) (by omega)
        (by simp only [List.length_append, List.length_cons]; omega)
      have hval := @copyBytes_window (front ++ name' ++ [32]) value back
        (front.length + name'.length + 1) stop (stop - (front.length + name'.length))
        (by simp [Nat.add_assoc]) (by omega) (by omega)
        (by simp only [List.length_append, List.length_cons]; omega)
      have hline' : front ++ name' ++ (32 :: value ++ back) = front ++ name' ++ [32] ++ value ++ back := by
        simp
      rw [parseStatFrom, subkeys, subkeysFrom_last hname hcolon]
      simp only [hspaceAt, bind, Except.bind]
      rw [hline]
      simp only [hcolonAt, hkey]
      rw [hline']
      simp only [hval]
      rfl
    · have hcolonAt := @search_some front name' (32 :: value ++ back) start _ hstart hcolonStop 58 mid
        later hname' hmid hlater
      have hlengthName : name'.length = mid.length + 1 + later.length := by
        rw [hname', List.length_append, List.length_cons]
        omega
      have hkey := @copyBytes_window front mid (58 :: later ++ (32 :: value ++ back)) start stop
        (front.length + mid.length - start) hstart (by omega) (by omega)
        (by simp only [List.length_append, List.length_cons]; omega)
      have hline' : front ++ name' ++ (32 :: value ++ back)
          = front ++ mid ++ (58 :: later ++ (32 :: value ++ back)) := by
        simp [hname']
      have hline'' : front ++ mid ++ (58 :: later ++ (32 :: value ++ back))
          = (front ++ mid ++ [58]) ++ (later ++ 32 :: value) ++ back := by
        simp
      have hlaterSuffix : later <:+ name := by
        refine List.IsSuffix.trans ?_ hsuffix
        rw [hname']
        exact (List.suffix_cons 58 later).trans (List.suffix_append mid _)
      have hnext := fun r => @ih (front ++ mid ++ [58]) later (front.length + mid.length + 1) stop r
        hlaterSuffix hlater (by simp [Nat.add_assoc]) (by omega)
        (by simp only [List.length_append, List.length_cons, List.length_nil]
            simp only [List.length_append, List.length_cons] at hstop
            omega) (by omega)
      rw [parseStatFrom, hname', subkeys, subkeysFrom_colon hmid hlater, List.nil_append, ← hname']
      simp only [hspaceAt, bind, Except.bind]
      rw [hline]
      simp only [hcolonAt]
      rw [hline']
      simp only [hkey]
      rw [hline'']
      simp only [hnext]
      have hkeys : subkeys later ≠ [] := subkeysFrom_ne_nil later []
      rw [enterStat_cons value mid hkeys]
      rfl

/-- What follows `STAT` is not empty and does not begin with a space that something follows. -/
def StatFits (s : Bytes) : Prop := s ≠ [] ∧ ¬(s.head? = some 32 ∧ 2 ≤ s.length)

section Suffix

variable {front s back : Bytes} {start stop : Nat} (hstart : start = front.length)
  (hstop : stop + 1 = front.length + s.length)

include hstart hstop

theorem mmcStatsParseStat_enters (hfront : front ≠ []) {name value : Bytes} (hs : s = name ++ 32 :: value)
    (hname : name ≠ []) (hspace : 32 ∉ name) (hvalue : value ≠ []) (result : StatsValue) :
    mmcStatsParseStat (front ++ s ++ back) start stop result
      = .ok (true, enterStat value (subkeys name) result) := by
  have hpos := List.length_pos_of_ne_nil hfront
  subst hs
  refine parseStatFrom_enters hspace hvalue back result List.suffix_rfl hname hstart (by omega) hstop ?_
  rw [List.length_append, List.length_cons] at hstop
  omega

/-- Without a space in front of the last byte nothing is entered. -/
theorem mmcStatsParseStat_refuses (hs : s ≠ []) (hspace : 32 ∉ s.dropLast) (result : StatsValue) :
    mmcStatsParseStat (front ++ s ++ back) start stop result = .ok (false, result.toArray) := by
  rw [mmcStatsParseStat, parseStatFrom]
  simp only [search_none hstart hstop hs hspace, bind, Except.bind]
  rfl

/-- **A `STAT` line** is parsed within its bytes exactly when it fits. -/
theorem mmcStatsParseStat_ok_iff (hfront : front ≠ []) (result : StatsValue) :
    (∃ out, mmcStatsParseStat (front ++ s ++ back) start stop result = .ok out) ↔ StatFits s := by
  have hpos := List.length_pos_of_ne_nil hfront
  by_cases hs : s = []
  · refine iff_of_false ?_ fun h => h.1 hs
    rintro ⟨out, hout⟩
    rw [mmcStatsParseStat, parseStatFrom] at hout
    simp [search_empty hstart hstop 32 _ hs, bind, Except.bind] at hout
  · rcases search_cases 32 s with hspace | ⟨name, value, hsplit, hspace, hvalue⟩
    · refine iff_of_true ⟨_, mmcStatsParseStat_refuses hstart hstop hs hspace result⟩ ⟨hs, ?_⟩
      rintro ⟨hhead, hlength⟩
      obtain ⟨b, rest, rfl⟩ := List.exists_cons_of_ne_nil hs
      cases hhead
      cases rest with
      | nil => simp at hlength
      | cons c rest => exact hspace List.mem_cons_self
    · by_cases hname : name = []
      · -- the search for a colon would end in front of its start
        refine iff_of_false ?_ fun h => h.2 ?_
        · rintro ⟨out, hout⟩
          have hcolon := phpMemnstr_backwards (front ++ s ++ back) 58
            (show front.length + name.length - 1 < start by rw [hname, List.length_nil]; omega)
          rw [mmcStatsParseStat, parseStatFrom] at hout
          simp only [search_some hstart hstop hsplit hspace hvalue, hcolon, bind, Except.bind,
            reduceCtorEq] at hout
        · have hvaluePos := List.length_pos_of_ne_nil hvalue
          rw [hsplit, hname]
          exact ⟨rfl, by simp; omega⟩
      · refine iff_of_true
          ⟨_, mmcStatsParseStat_enters hstart hstop hfront hsplit hname hspace hvalue result⟩ ⟨hs, ?_⟩
        rintro ⟨hhead, -⟩
        cases name with
        | nil => exact hname rfl
        | cons b name =>
          rw [hsplit] at hhead
          cases hhead
          exact hspace List.mem_cons_self

end Suffix

/-! ## `ITEM` lines -/

/-- What follows a delimiter up to the last byte: where `skipping`, spaces are left out before a value;
    after them there is a byte that is not the last one, and so behind every further delimiter. -/
def DelimiterFits : Bool → Bytes → Prop
  | _, [] => False
  | skipping, [_] => skipping = false
  | true, b :: rest => DelimiterFits (b = 32) rest
  | false, b :: rest => DelimiterFits (b = 59) rest

/-- The bytes behind the first `c`, the last byte not being looked at. -/
def behindFirst (c : UInt8) : Bytes → Option Bytes
  | [] => none
  | [_] => none
  | b :: d :: rest => if b = c then some (d :: rest) else behindFirst c (d :: rest)

/-- What follows `ITEM` is not empty, and what follows a bracket behind a space fits. -/
def ItemFits (s : Bytes) : Prop :=
  s ≠ [] ∧ ∀ t ∈ behindFirst 32 s, ∀ u ∈ behindFirst 91 t, DelimiterFits true u

theorem delimiterFits_skip {b : UInt8} {rest : Bytes} (h : rest ≠ []) :
    DelimiterFits true (b :: rest) ↔ DelimiterFits (b = 32) rest := by
  cases rest with
  | nil => exact absurd rfl h
  | cons c rest => exact Iff.rfl

theorem delimiterFits_search {b : UInt8} {rest : Bytes} (h : rest ≠ []) :
    DelimiterFits false (b :: rest) ↔ DelimiterFits (b = 59) rest := by
  cases rest with
  | nil => exact absurd rfl h
  | cons c rest => exact Iff.rfl

/-- Without a further delimiter in front of the last byte all is well. -/
theorem delimiterFits_of_last {s : Bytes} (hs : s ≠ []) (h : 59 ∉ s.dropLast) : DelimiterFits false s := by
  induction s with
  | nil => exact absurd rfl hs
  | cons b rest ih =>
    cases rest with
    | nil => rfl
    | cons c rest =>
      rw [List.dropLast_cons_cons, List.mem_cons, not_or] at h
      rw [delimiterFits_search (by simp), decide_eq_false (Ne.symm h.1)]
      exact ih (by simp) h.2

theorem delimiterFits_next {mid later : Bytes} (hmid : 59 ∉ mid) (hlater : later ≠ []) :
    DelimiterFits false (mid ++ 59 :: later) ↔ DelimiterFits true later := by
  induction mid with
  | nil => exact delimiterFits_search hlater
  | cons b mid ih =>
    rw [List.mem_cons, not_or] at hmid
    rw [List.cons_append, delimiterFits_search (by simp), decide_eq_false (Ne.symm hmid.1)]
    exact ih hmid.2

/-- The spaces behind a delimiter. -/
theorem delimiterFits_spaces {s : Bytes} :
    DelimiterFits true s ↔ ∃ b rest, s.dropWhile (· = 32) = b :: rest ∧ rest ≠ [] ∧ DelimiterFits false rest := by
  induction s with
  | nil => simp [DelimiterFits]
  | cons b rest ih =>
    by_cases hrest : rest = []
    · subst hrest
      by_cases hb : b = 32 <;> simp [DelimiterFits, hb]
    · rw [delimiterFits_skip hrest]
      by_cases hb : b = 32
      · rw [decide_eq_true hb, ih, List.dropWhile_cons_of_pos (by simpa using hb)]
      · rw [decide_eq_false hb, List.dropWhile_cons_of_neg (by simpa using hb)]
        simp [hrest]

/-- The byte at the front of what follows. -/
theorem byteAt_front (front s back : Bytes) {stop : Nat} (hstop : stop + 1 = front.length + s.length) :
    byteAt (front ++ s ++ back) stop front.length = s.head?.elim (.error .outside) .ok := by
  unfold byteAt
  cases s with
  | nil =>
    rw [List.length_nil] at hstop
    split
    · rw [if_neg (by omega)]
      rfl
    · rfl
  | cons b s =>
    have hread : (front ++ b :: s ++ back)[front.length]? = some b := by simp
    rw [List.length_cons] at hstop
    rw [hread]
    dsimp only
    rw [if_pos (by omega)]
    rfl

/-- The spaces behind a delimiter are left out, by induction on the fuel; with nothing but spaces up to
    the last byte, the byte behind it is looked at. -/
theorem skipSpaces_eq (back : Bytes) (fuel : Nat) {stop : Nat} : ∀ {front s : Bytes} {value : Nat},
    value + 1 = front.length → stop + 1 = front.length + s.length → s.length < fuel →
    skipSpaces (front ++ s ++ back) stop fuel value
      = if s.dropWhile (· = 32) = [] then .error .outside
        else .ok (stop + 1 - (s.dropWhile (· = 32)).length) := by
  induction fuel with
  | zero => intro front s value _ _ hfuel; omega
  | succ fuel ih =>
    intro front s value hvalue hstop hfuel
    have hbyte := byteAt_front front s back hstop
    rw [skipSpaces, hvalue]
    simp only [hbyte, bind, Except.bind]
    cases s with
    | nil => rfl
    | cons b s =>
      rw [List.length_cons] at hstop hfuel
      by_cases hb : b = 32
      · have hnext := @ih (front ++ [b]) s front.length (by simp) (by simp; omega) (by omega)
        have hline : front ++ [b] ++ s ++ back = front ++ b :: s ++ back := by simp
        rw [hline] at hnext
        rw [List.dropWhile_cons_of_pos (by simpa using hb), ← hnext]
        exact if_pos ⟨hb, by omega⟩
      · rw [List.dropWhile_cons_of_neg (by simpa using hb), if_neg (by simp), List.length_cons]
        have hplace : stop + 1 - (s.length + 1) = front.length := by omega
        rw [hplace]
        exact if_neg fun h => hb h.1

theorem addItemValue_ok {front s back : Bytes} {value stop : Nat} (hvalue : value = front.length)
    (hstop : stop + 1 = front.length + s.length) (hs : s ≠ []) (element : List Bytes) :
    ∃ element', addItemValue (front ++ s ++ back) stop value element = .ok element' := by
  have hpos := List.length_pos_of_ne_nil hs
  rw [addItemValue, if_pos (by omega)]
  rcases search_cases 32 s with hnone | ⟨mid, later, hsplit, hmid, hlater⟩
  · refine ⟨element, ?_⟩
    simp only [search_none hvalue hstop hs hnone, bind, Except.bind]
    rfl
  · have hlaterPos := List.length_pos_of_ne_nil hlater
    have hcopy := @copyBytes_window front mid (32 :: later ++ back) value stop
      (front.length + mid.length - value) hvalue (by omega)
      (by rw [hsplit, List.length_append, List.length_cons] at hstop; omega)
      (by rw [hsplit, List.length_append, List.length_cons] at hstop
          simp only [List.length_append, List.length_cons]
          omega)
    have hline : front ++ mid ++ (32 :: later ++ back) = front ++ s ++ back := by
      simp [hsplit]
    rw [hline] at hcopy
    refine ⟨element ++ [mid], ?_⟩
    simp only [search_some hvalue hstop hsplit hmid hlater, hcopy, bind, Except.bind]
    rfl

/-- **The values of an item** are read within the line exactly when what follows the delimiter fits, by
    induction on the fuel. -/
theorem itemValues_ok_iff (back : Bytes) (fuel : Nat) {stop : Nat} :
    ∀ {front s : Bytes} {value : Nat} (element : List Bytes),
    value + 1 = front.length → stop + 1 = front.length + s.length → s.length < fuel →
    ((∃ out, itemValues (front ++ s ++ back) stop fuel value element = .ok out) ↔
      DelimiterFits true s) := by
  induction fuel with
  | zero => intro front s value _ _ _ hfuel; omega
  | succ fuel ih =>
    intro front s value element hvalue hstop hfuel
    have hskip := @skipSpaces_eq back (stop + 1) stop front s value hvalue hstop (by omega)
    rw [delimiterFits_spaces, itemValues, if_neg (by omega)]
    simp only [hskip, bind, Except.bind]
    cases hdrop : s.dropWhile (· = 32) with
    | nil =>
      refine iff_of_false ?_ ?_
      · rintro ⟨out, hout⟩
        cases hout
      · rintro ⟨b, rest, h, -⟩
        cases h
    | cons b rest =>
      have hsplit : s = s.takeWhile (· = 32) ++ b :: rest := by
        rw [← hdrop, List.takeWhile_append_dropWhile]
      generalize hspaces : s.takeWhile (· = 32) = spaces at hsplit
      have hlength : s.length = spaces.length + 1 + rest.length := by
        rw [hsplit, List.length_append, List.length_cons]
        omega
      have hplace : stop + 1 - (b :: rest).length = (front ++ spaces).length := by
        rw [List.length_cons, List.length_append]
        omega
      have hline : front ++ s ++ back = (front ++ spaces) ++ (b :: rest) ++ back := by
        rw [hsplit]
        simp
      obtain ⟨element', helement⟩ := @addItemValue_ok (front ++ spaces) (b :: rest) back _ stop rfl
        (by rw [List.length_append, List.length_cons]; omega) (by simp) element
      have hfits : (∃ b' rest', b :: rest = b' :: rest' ∧ rest' ≠ [] ∧ DelimiterFits false rest') ↔
          rest ≠ [] ∧ DelimiterFits false rest := by
        simp
      -- the search for the next delimiter starts behind the first byte of the value
      have hline' : (front ++ spaces) ++ (b :: rest) ++ back = (front ++ spaces ++ [b]) ++ rest ++ back := by
        simp
      have hstart : (front ++ spaces).length + 1 = (front ++ spaces ++ [b]).length := by
        simp [Nat.add_assoc]
      have hstop' : stop + 1 = (front ++ spaces ++ [b]).length + rest.length := by
        rw [← hstart, List.length_append]
        omega
      rw [if_neg (by simp), hplace, hline, hfits]
      simp only [helement]
      rw [hline']
      by_cases hrest : rest = []
      · refine iff_of_false ?_ fun h => h.1 hrest
        simp only [search_empty hstart hstop' 59 _ hrest]
        rintro ⟨out, hout⟩
        cases hout
      · rw [and_iff_right hrest]
        rcases search_cases 59 rest with hnone | ⟨mid, later, hsplit', hmid, hlater⟩
        · refine iff_of_true ⟨element', ?_⟩ (delimiterFits_of_last hrest hnone)
          simp only [search_none hstart hstop' hrest hnone]
          rfl
        · have hlater' : rest.length = mid.length + 1 + later.length := by
            rw [hsplit', List.length_append, List.length_cons]
            omega
          have hnext := @ih (front ++ spaces ++ [b] ++ mid ++ [59]) later
            ((front ++ spaces ++ [b]).length + mid.length) element' (by simp; omega)
            (by simp only [List.length_append, List.length_cons, List.length_nil] at hstop' ⊢; omega)
            (by omega)
          have hline'' : (front ++ spaces ++ [b]) ++ rest ++ back
              = (front ++ spaces ++ [b] ++ mid ++ [59]) ++ later ++ back := by
            rw [hsplit']
            simp
          simp only [search_some hstart hstop' hsplit' hmid hlater]
          rw [hline'', hnext, hsplit', delimiterFits_next hmid hlater]

theorem behindFirst_none {c : UInt8} {s : Bytes} (h : c ∉ s.dropLast) : behindFirst c s = none := by
  induction s with
  | nil => rfl
  | cons b rest ih =>
    cases rest with
    | nil => rfl
    | cons d rest =>
      rw [List.dropLast_cons_cons, List.mem_cons, not_or] at h
      rw [behindFirst, if_neg (Ne.symm h.1), ih h.2]

theorem behindFirst_some {c : UInt8} {mid later : Bytes} (hmid : c ∉ mid) (hlater : later ≠ []) :
    behindFirst c (mid ++ c :: later) = some later := by
  induction mid with
  | nil =>
    obtain ⟨d, later, rfl⟩ := List.exists_cons_of_ne_nil hlater
    rw [List.nil_append, behindFirst, if_pos rfl]
  | cons b mid ih =>
    rw [List.mem_cons, not_or] at hmid
    rw [List.cons_append]
    obtain ⟨d, rest, hrest⟩ := List.exists_cons_of_ne_nil (show mid ++ c :: later ≠ [] by simp)
    rw [hrest, behindFirst, if_neg (Ne.symm hmid.1), ← hrest, ih hmid.2]

section Suffix

variable {front s back : Bytes} {start stop : Nat} (hstart : start = front.length)
  (hstop : stop + 1 = front.length + s.length)

include hstart hstop

/-- **An `ITEM` line** is parsed within its bytes exactly when it fits. -/
theorem mmcStatsParseItem_ok_iff (result : StatsValue) :
    (∃ out, mmcStatsParseItem (front ++ s ++ back) start stop result = .ok out) ↔ ItemFits s := by
  by_cases hs : s = []
  · refine iff_of_false ?_ fun h => h.1 hs
    rintro ⟨out, hout⟩
    simp only [mmcStatsParseItem, search_empty hstart hstop 32 _ hs, bind, Except.bind,
      reduceCtorEq] at hout
  · rw [ItemFits, and_iff_right hs]
    rcases search_cases 32 s with hspace | ⟨name, t, hsplit, hspace, ht⟩
    · refine iff_of_true ⟨(false, result.toArray), ?_⟩ (by simp [behindFirst_none hspace])
      simp only [mmcStatsParseItem, search_none hstart hstop hs hspace, bind, Except.bind]
      rfl
    · have hline : front ++ s ++ back = (front ++ name) ++ (32 :: t) ++ back := by
        rw [hsplit]
        simp
      have hstop' : stop + 1 = (front ++ name).length + (32 :: t).length := by
        rw [hstop, hsplit]
        simp only [List.length_append, List.length_cons]
        omega
      have hfound := @search_some front s back start stop hstart hstop 32 name t hsplit hspace ht
      have hplace : front.length + name.length = (front ++ name).length := by simp
      have hkey : copyBytes (front ++ s ++ back) stop start (front.length + name.length - start)
          = .ok name := by
        have hcopy := @copyBytes_window front name (32 :: t ++ back) start stop
          (front.length + name.length - start) hstart (by omega)
          (by simp only [List.length_append, List.length_cons] at hstop'; omega)
          (by simp only [List.length_append, List.length_cons] at hstop' ⊢; omega)
        have hsame : front ++ name ++ (32 :: t ++ back) = front ++ s ++ back := by simp [hsplit]
        rwa [hsame] at hcopy
      have hbehind : behindFirst 32 s = some t := by rw [hsplit, behindFirst_some hspace ht]
      simp only [hbehind, Option.mem_some_iff, forall_eq']
      -- the search for a bracket starts at the space
      rcases search_cases 91 (32 :: t) with hbracket | ⟨mid, later, hopen, hmid, hlater⟩
      · have hnone : 91 ∉ t.dropLast := by
          obtain ⟨d, t, rfl⟩ := List.exists_cons_of_ne_nil ht
          rw [List.dropLast_cons_cons, List.mem_cons, not_or] at hbracket
          exact hbracket.2
        have hsearch := @search_none (front ++ name) (32 :: t) back _ stop hplace hstop' 91 (by simp)
          hbracket
        rw [← hline] at hsearch
        refine iff_of_true ⟨(true, result.toArray.set (zendSymtableKey name) (indexedArray [])), ?_⟩
          (by simp [behindFirst_none hnone])
        simp only [mmcStatsParseItem, hfound, hsearch, hkey, bind, Except.bind, pure, Except.pure]
      · have hsearch := @search_some (front ++ name) (32 :: t) back _ stop hplace hstop' 91 mid later hopen
          hmid hlater
        rw [← hline] at hsearch
        cases mid with
        | nil => cases hopen
        | cons b mid =>
          rw [List.cons_append, List.cons.injEq] at hopen
          obtain ⟨rfl, htail⟩ := hopen
          rw [List.mem_cons, not_or] at hmid
          have hdelimiter : behindFirst 91 t = some later := by
            rw [htail, behindFirst_some hmid.2 hlater]
          have hline' : (front ++ name ++ (32 :: mid) ++ [91]) ++ later ++ back = front ++ s ++ back := by
            rw [hsplit, htail]
            simp
          have hvalues := @itemValues_ok_iff back (stop + 1) stop (front ++ name ++ (32 :: mid) ++ [91])
            later ((front ++ name).length + (32 :: mid).length) [] (by simp; omega)
            (by rw [htail] at hstop'
                simp only [List.length_append, List.length_cons, List.length_nil] at hstop' ⊢
                omega)
            (by rw [htail] at hstop'
                simp only [List.length_append, List.length_cons] at hstop'
                omega)
          rw [hline'] at hvalues
          simp only [hdelimiter, Option.mem_some_iff, forall_eq']
          rw [← hvalues]
          simp only [mmcStatsParseItem, hfound, hsearch, bind, Except.bind]
          cases hitem : itemValues (front ++ s ++ back) stop (stop + 1)
              ((front ++ name).length + (32 :: mid).length) [] with
          | ok element =>
            refine iff_of_true
              ⟨(true, result.toArray.set (zendSymtableKey name) (indexedArray element)), ?_⟩
              ⟨element, rfl⟩
            simp only [hkey, pure, Except.pure]
          | error fault => simp

end Suffix

/-! ## The lines a server sends -/

/-- `STAT` and `ITEM` with the space behind them. -/
def statFront : Bytes := bytes ['S', 'T', 'A', 'T', ' ']

def itemFront : Bytes := bytes ['I', 'T', 'E', 'M', ' ']

/-- The parser comes to its end with every search forward and no byte but those of the line examined or
    copied. -/
def StaysInside (out : Except StatsFault (Bool × StatsValue)) : Prop := ∃ parsed, out = .ok parsed

/-- **The parsers of statistics** stay inside of the line, whose last byte they are passed the place of,
    exactly when what follows `STAT` or `ITEM` fits; `tail` is what is in memory behind the line. -/
theorem statsParsers_stayInside_iff (rest tail : Bytes) (result : StatsValue) :
    (StaysInside (mmcStatsParseStat (statFront ++ rest ++ tail) statFront.length
        ((statFront ++ rest).length - 1) result) ↔ StatFits rest) ∧
      (StaysInside (mmcStatsParseItem (itemFront ++ rest ++ tail) itemFront.length
        ((itemFront ++ rest).length - 1) result) ↔ ItemFits rest) := by
  constructor
  · refine mmcStatsParseStat_ok_iff rfl ?_ (by decide) result
    rw [List.length_append]
    exact Nat.succ_pred_eq_of_pos (Nat.add_pos_left (by decide) _)
  · refine mmcStatsParseItem_ok_iff rfl ?_ result
    rw [List.length_append]
    exact Nat.succ_pred_eq_of_pos (Nat.add_pos_left (by decide) _)

/-- `STAT` with an empty name: the search for a colon ends in front of the name. -/
theorem emptyName_not_stayInside :
    ¬∀ (rest tail : Bytes) (result : StatsValue),
      StaysInside (mmcStatsParseStat (statFront ++ rest ++ tail) statFront.length
          ((statFront ++ rest).length - 1) result) ∧
        StaysInside (mmcStatsParseItem (itemFront ++ rest ++ tail) itemFront.length
          ((itemFront ++ rest).length - 1) result) := by
  intro h
  obtain ⟨parsed, hparsed⟩ := (h [32, 120] [0, 10] (.scalar (.bool false))).1
  have hfault : mmcStatsParseStat (statFront ++ [32, 120] ++ [0, 10]) statFront.length
      ((statFront ++ [32, 120]).length - 1) (.scalar (.bool false)) = .error .backwards := by
    rfl
  rw [hfault] at hparsed
  cases hparsed

end PeclMemcache
