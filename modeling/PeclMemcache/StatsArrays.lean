import PeclMemcache.Lines
import PeclMemcache.StatsLines

set_option autoImplicit false

/-! # Arrays of statistics

The lines that `stats` is answered with are parsed one after the other into one nested array. A subkey
that is read as an integer is looked up as that integer even where it does not become that integer as
a key, so that it may find the array of another subkey. -/

namespace PeclMemcache

open NestedArrays Stateful

/-! ## The handler -/

/-- The integer behind a key. -/
def ArrayKey.next : ArrayKey → Int
  | .long n => n + 1
  | .string _ => 0

/-- `add_next_index_stringl`, which does nothing when there is no integer behind the largest key. -/
def StatsValue.addNextIndex (result : StatsValue) (s : Bytes) : StatsValue :=
  let next := result.entries.foldl (fun n e => max n e.1.next) 0
  if next < 2 ^ 63 then result.set (.long next) (.scalar (.string s)) else result

/-- `mmc_stats_parse_generic`, whose end is the place behind the last byte. -/
def mmcStatsParseGeneric (line : Bytes) (start stop : Nat) (result : StatsValue) :
    Except StatsFault (Bool × StatsValue) := do
  let result := result.toArray
  if start < stop then
    match ← phpMemnstr line start 32 stop with
    | some space =>
      -- the NUL behind the copy of the key belongs to the key
      let key := (line.drop start).take (space - start) ++ [0]
      let value := (line.drop (space + 1)).take (stop - space)
      return (true, result.set (zendSymtableKey key) (.scalar (.string value)))
    | none => return (true, result.addNextIndex ((line.drop start).take (stop - start)))
  else return (false, result)

/-- What the handler returns and leaves as the result for what a parser returns. -/
def statsVerdict : Bool × StatsValue → Verdict × StatsValue
  | (true, result) => (.again, result)
  | (false, _) => (.failure, .scalar (.bool false))

/-- `mmc_stats_handler`. -/
def mmcStatsHandler (response : Int) (line : Bytes) (len : Nat) (param : StatsValue) :
    Except StatsFault (Verdict × StatsValue) :=
  if response ≠ MMC_RESPONSE_ERROR then
    if len = 0 then .ok (.done, param)
    else if mmcStrLeft (line.take len) (bytes ['R', 'E', 'S', 'E', 'T']) then
      .ok (.done, .scalar (.bool true))
    else if mmcStrLeft (line.take len) statFront then
      (mmcStatsParseStat line statFront.length (len - 1) param).map statsVerdict
    else if mmcStrLeft (line.take len) itemFront then
      (mmcStatsParseItem line itemFront.length (len - 1) param).map statsVerdict
    else if mmcStrLeft (line.take len) (bytes ['E', 'N', 'D']) then .ok (.done, param)
    else (mmcStatsParseGeneric line 0 len param).map statsVerdict
  else .ok (.requestFailure, param)

/-- The handler gets a line that was read. -/
def statsStep (line : Bytes) (param : StatsValue) : Except StatsFault (Verdict × StatsValue) :=
  mmcStatsHandler (mmcRequestCheckResponse line) (chopLine line) (messageLen line) param

/-- A line that the reader of the stream returns. -/
def LineRead (line : Bytes) : Prop :=
  ∃ w v : Wire, w.io.input.length < MMC_BUFFER_SIZE ∧ mmcStreamGetLine w = (some line, v)

/-- The results in front of the lines of a response. -/
inductive StatsReached : StatsValue → Prop
  | first : StatsReached (.scalar (.bool false))
  | line {r r' : StatsValue} {line : Bytes} : StatsReached r → LineRead line →
      statsStep line r = .ok (.again, r') → StatsReached r'

/-! ## What a line should do -/

/-- `STAT p1:p2:...:pn VALUE`. -/
def statLine (path : List Bytes) (value : Bytes) : Bytes :=
  statFront ++ List.intercalate [58] path ++ 32 :: value ++ crlf

/-- A message that is left to `mmc_stats_parse_generic`. -/
def Generic (message : Bytes) : Prop :=
  mmcRequestCheckResponse message ≠ MMC_RESPONSE_ERROR ∧
    ∀ front ∈ [bytes ['R', 'E', 'S', 'E', 'T'], statFront, itemFront, bytes ['E', 'N', 'D']],
      mmcStrLeft message front = false

/-- The line sets the value at the end of a path, and the handler waits for the next one; what lies on
    a path that parts from it is as it was. -/
def SetsTo (line : Bytes) (path : List ArrayKey) (value : Bytes) (r : StatsValue) : Prop :=
  ∃ r', statsStep line r = .ok (.again, r') ∧ r'.get path = some (.scalar (.string value)) ∧
    ∀ other, ¬path <+: other → ¬other <+: path → r'.get other = r.get other

/-- **The line does what it says**: `STAT p1:p2:...:pn VALUE` sets the value under its subkeys, and
    `NAME VALUE` under its name. -/
def LineRight (r : StatsValue) (line : Bytes) : Prop :=
  (∀ path value, path ≠ [] → (∀ p ∈ path, 58 ∉ p ∧ 32 ∉ p) → line = statLine path value →
    SetsTo line (path.map zendSymtableKey) value r) ∧
  ∀ name value, 32 ∉ name → Generic (name ++ 32 :: value) → line = name ++ 32 :: value ++ crlf →
    SetsTo line [zendSymtableKey name] value r

/-- No subkey but the last is read as the integer of an entry without being that integer as a key. -/
def NoClash : List Bytes → StatsValue → Prop
  | [], _ => True
  | p :: path, r =>
    (path ≠ [] → zendHandleNumericStr p = none → ∀ n ∈ isNumericString p,
      r.find (.long (n.getD 0)) = none) ∧
    NoClash path ((r.find (zendSymtableKey p)).getD (.array []))

/-- What a line has to be like: a `STAT` line, if it has a name and a value, with neither its value nor
    its last subkey empty. -/
def LineFits (r : StatsValue) (line : Bytes) : Prop :=
  (∀ path value, path ≠ [] → (∀ p ∈ path, 58 ∉ p ∧ 32 ∉ p) → line = statLine path value →
    value ≠ [] ∧ path.getLast? ≠ some [] ∧ NoClash path r) ∧
  ∀ name value, 32 ∉ name → Generic (name ++ 32 :: value) → line ≠ name ++ 32 :: value ++ crlf

/-! ## Numeric strings -/

theorem trimmed_eq_self {s : Bytes} (h : ∀ b ∈ s, isSpace b = false) :
    ((s.dropWhile isSpace).reverse.dropWhile isSpace).reverse = s := by
  have hkeep {t : Bytes} (ht : ∀ b ∈ t, isSpace b = false) : t.dropWhile isSpace = t := by
    cases t with
    | nil => rfl
    | cons b t => rw [List.dropWhile_cons_of_neg (by simp [ht b List.mem_cons_self])]
  rw [hkeep h, hkeep fun b hb => h b (List.mem_reverse.mp hb), List.reverse_reverse]

theorem isSpace_of_isDigit {b : UInt8} (h : isDigit b = true) : isSpace b = false := by
  simp only [isDigit, Bool.and_eq_true, decide_eq_true_eq] at h
  simp only [isSpace, Bool.or_eq_false_iff, Bool.and_eq_false_iff, decide_eq_false_iff_not]
  refine ⟨?_, .inr ?_⟩
  · rintro rfl
    exact absurd h.1 (by decide)
  · intro hb
    exact absurd (UInt8.le_trans h.1 hb) (by decide)

/-- Digits without a sign, or behind a minus. -/
theorem isNumericString_digits {digits : Bytes} (hne : digits ≠ []) (hdigits : digits.all isDigit)
    {negative : Bool} {n : Int}
    (hn : n = if negative then -(digitsValue digits : Int) else digitsValue digits)
    (hlow : -2 ^ 63 ≤ n) (hhigh : n < 2 ^ 63) :
    isNumericString (if negative then 45 :: digits else digits) = some (some n) := by
  obtain ⟨d, rest, hd⟩ := List.exists_cons_of_ne_nil hne
  have hall := List.all_eq_true.mp hdigits
  have hfirst : isDigit d = true := hall d (hd ▸ List.mem_cons_self)
  have hspace : ∀ b ∈ (if negative then 45 :: digits else digits), isSpace b = false := by
    cases negative with
    | false => exact fun b hb => isSpace_of_isDigit (hall b hb)
    | true =>
      intro b hb
      rcases List.mem_cons.mp hb with rfl | hb
      · rfl
      · exact isSpace_of_isDigit (hall b hb)
  have htake : digits.takeWhile isDigit = digits := List.takeWhile_eq_self_iff.mpr hall
  have hdrop : digits.dropWhile isDigit = [] := List.dropWhile_eq_nil_iff.mpr hall
  unfold isNumericString
  rw [trimmed_eq_self hspace]
  cases negative with
  | true =>
    simp only [if_true] at hn
    simp only [if_true, List.head?_cons, List.tail_cons, true_or, htake, hdrop, hne, if_false, ← hn]
    exact if_pos ⟨hlow, hhigh⟩
  | false =>
    have hminus : digits.head? ≠ some 45 := by
      rw [hd]
      rintro ⟨rfl⟩
      exact absurd hfirst (by decide)
    have hplus : digits.head? ≠ some 43 := by
      rw [hd]
      rintro ⟨rfl⟩
      exact absurd hfirst (by decide)
    simp only [Bool.false_eq_true, if_false] at hn
    simp only [Bool.false_eq_true, if_false, hminus, hplus, or_self, htake, hdrop, if_true, hne, ← hn]
    exact if_pos ⟨hlow, hhigh⟩

/-- A string that becomes an integer as a key is read as that integer. -/
theorem isNumericString_of_key {s : Bytes} {n : Int} (h : zendHandleNumericStr s = some n) :
    isNumericString s = some (some n) := by
  unfold zendHandleNumericStr at h
  by_cases hminus : s.head? = some 45
  · obtain ⟨digits, rfl⟩ : ∃ digits, s = 45 :: digits := List.head?_eq_some_iff.mp hminus
    simp only [List.head?_cons, if_true, List.tail_cons] at h
    split at h
    · cases h
    · next hshape =>
      simp only [not_or, not_not] at hshape
      split at h
      · next hbound =>
        cases h
        exact @isNumericString_digits digits hshape.1 hshape.2.1 true _ rfl (by omega) (by omega)
      · cases h
  · simp only [hminus, if_false] at h
    split at h
    · cases h
    · next hshape =>
      simp only [not_or, not_not] at hshape
      split at h
      · next hbound =>
        cases h
        exact @isNumericString_digits s hshape.1 hshape.2.1 false _ rfl (by omega) (by omega)
      · cases h

/-! ## The keys of a result -/

/-- An integer, or a string that does not become one. -/
def Canonical : ArrayKey → Prop
  | .long _ => True
  | .string s => zendHandleNumericStr s = none

theorem canonical_zendSymtableKey (s : Bytes) : Canonical (zendSymtableKey s) := by
  unfold zendSymtableKey
  cases h : zendHandleNumericStr s with
  | some n => trivial
  | none => exact h

theorem toArray_find (r : StatsValue) (k : ArrayKey) : r.toArray.find k = r.find k := by
  cases r <;> rfl

theorem toArray_set (r x : StatsValue) (k : ArrayKey) : r.toArray.set k x = r.set k x := by
  cases r <;> rfl

theorem keysIn_toArray {r : StatsValue} (h : r.KeysIn Canonical) : r.toArray.KeysIn Canonical := by
  cases r with
  | scalar s => exact Value.keysIn_empty
  | array es => exact h

theorem keysIn_getD {r : StatsValue} (h : r.KeysIn Canonical) (k : ArrayKey) :
    ((r.find k).getD (.array [])).KeysIn Canonical := by
  cases hfind : r.find k with
  | none => exact Value.keysIn_empty
  | some x => exact (h.find hfind).2

theorem canonical_selectSubkey {r : StatsValue} (h : r.KeysIn Canonical) (key : Bytes) :
    Canonical (selectSubkey r key) := by
  have hstring : Canonical (if (r.find (.string key)).isSome then .string key else zendSymtableKey key) := by
    split
    · next hsome =>
      obtain ⟨x, hx⟩ := Option.isSome_iff_exists.mp hsome
      exact (h.find hx).1
    · exact canonical_zendSymtableKey key
  unfold selectSubkey
  split
  · split
    · trivial
    · exact hstring
  · exact hstring

theorem keysIn_addNextIndex {r : StatsValue} (h : r.KeysIn Canonical) (s : Bytes) :
    (r.addNextIndex s).KeysIn Canonical := by
  unfold StatsValue.addNextIndex
  dsimp only
  split
  · exact h.set trivial (Value.keysIn_scalar _)
  · exact h

theorem keysIn_indexedArray (values : List Bytes) : (indexedArray values).KeysIn Canonical := by
  refine Value.keysIn_array fun e he => ?_
  obtain ⟨v, -, rfl⟩ := List.mem_map.mp he
  exact ⟨trivial, Value.keysIn_scalar _⟩

/-- A parser returns a result whose keys are right. -/
def KeepsKeys (out : Except StatsFault (Bool × StatsValue)) : Prop :=
  Yields out (fun parsed => parsed.2.KeysIn Canonical) fun _ => True

/-- `STAT` lines of any shape, by induction on the fuel. -/
theorem keepsKeys_parseStatFrom (line : Bytes) (stop : Nat) {fuel : Nat} :
    ∀ (start : Nat) {r : StatsValue}, r.KeysIn Canonical →
      KeepsKeys (parseStatFrom line stop fuel start r) := by
  induction fuel with
  | zero => exact fun _ _ _ => trivial
  | succ fuel ih =>
    intro start r hr
    have hr := keysIn_toArray hr
    rw [parseStatFrom]
    refine (yields_self _).bind fun space _ => ?_
    cases space with
    | none => exact hr
    | some space =>
      refine (yields_self _).bind fun colon _ => ?_
      cases colon with
      | none =>
        refine (yields_self _).bind fun key _ => (yields_self _).bind fun value _ => ?_
        exact hr.set (canonical_zendSymtableKey key) (Value.keysIn_scalar _)
      | some colon =>
        refine (yields_self _).bind fun key _ => ?_
        refine (ih (colon + 1) (keysIn_getD hr _)).bind fun out hout => ?_
        exact hr.set (canonical_selectSubkey hr key) hout

theorem keepsKeys_mmcStatsParseItem (line : Bytes) (start stop : Nat) {r : StatsValue}
    (hr : r.KeysIn Canonical) : KeepsKeys (mmcStatsParseItem line start stop r) := by
  have hr := keysIn_toArray hr
  rw [mmcStatsParseItem]
  refine (yields_self _).bind fun space _ => ?_
  cases space with
  | none => exact hr
  | some space =>
    have hentered (element : List Bytes) : KeepsKeys (do
        let key ← copyBytes line stop start (space - start)
        return (true, r.toArray.set (zendSymtableKey key) (indexedArray element))) :=
      (yields_self _).bind fun key _ =>
        hr.set (canonical_zendSymtableKey key) (keysIn_indexedArray element)
    refine (yields_self _).bind fun bracket _ => ?_
    cases bracket with
    | none => exact hentered []
    | some bracket => exact (yields_self _).bind fun element _ => hentered element

theorem keepsKeys_mmcStatsParseGeneric (line : Bytes) (start stop : Nat) {r : StatsValue}
    (hr : r.KeysIn Canonical) : KeepsKeys (mmcStatsParseGeneric line start stop r) := by
  have hr := keysIn_toArray hr
  rw [mmcStatsParseGeneric]
  refine yields_ite (fun _ => ?_) fun _ => hr
  refine (yields_self _).bind fun space _ => ?_
  cases space with
  | none => exact keysIn_addNextIndex hr _
  | some space => exact hr.set (canonical_zendSymtableKey _) (Value.keysIn_scalar _)

theorem keysIn_of_statsVerdict {out : Except StatsFault (Bool × StatsValue)} (h : KeepsKeys out)
    {verdict : Verdict} {r : StatsValue} (hout : out.map statsVerdict = .ok (verdict, r)) :
    r.KeysIn Canonical := by
  cases out with
  | error fault => cases hout
  | ok parsed =>
    obtain ⟨done, r'⟩ := parsed
    cases done with
    | false =>
      cases hout
      exact Value.keysIn_scalar _
    | true =>
      cases hout
      exact h

/-- **Keys stay canonical**, whatever the line. -/
theorem keysIn_statsStep {line : Bytes} {verdict : Verdict} {r r' : StatsValue}
    (h : statsStep line r = .ok (verdict, r')) (hr : r.KeysIn Canonical) : r'.KeysIn Canonical := by
  unfold statsStep mmcStatsHandler at h
  repeat' split at h
  · cases h
    exact hr
  · cases h
    exact Value.keysIn_scalar _
  · exact keysIn_of_statsVerdict (keepsKeys_parseStatFrom _ _ _ hr) h
  · exact keysIn_of_statsVerdict (keepsKeys_mmcStatsParseItem _ _ _ hr) h
  · cases h
    exact hr
  · exact keysIn_of_statsVerdict (keepsKeys_mmcStatsParseGeneric _ _ _ hr) h
  · cases h
    exact hr

/-- The keys of every result that is reached are canonical, by induction on the lines. -/
theorem StatsReached.keysIn {r : StatsValue} (h : StatsReached r) : r.KeysIn Canonical := by
  induction h with
  | first => exact Value.keysIn_scalar _
  | line _ _ hstep ih => exact keysIn_statsStep hstep ih

/-! ## `STAT` lines -/

/-- The subkey's own key is taken, unless another entry is there under the integer it is read as. -/
theorem selectSubkey_eq {r : StatsValue} (hr : r.KeysIn Canonical) {key : Bytes}
    (h : zendHandleNumericStr key = none → ∀ n ∈ isNumericString key, r.find (.long (n.getD 0)) = none) :
    selectSubkey r key = zendSymtableKey key := by
  have hstring : (if (r.find (.string key)).isSome then .string key else zendSymtableKey key)
      = zendSymtableKey key := by
    split
    · next hsome =>
      obtain ⟨x, hx⟩ := Option.isSome_iff_exists.mp hsome
      have hnone : zendHandleNumericStr key = none := (hr.find hx).1
      rw [zendSymtableKey, hnone]
    · rfl
  unfold selectSubkey
  cases hkey : zendHandleNumericStr key with
  | some n =>
    rw [isNumericString_of_key hkey]
    dsimp only
    have hlong : zendSymtableKey key = .long n := by rw [zendSymtableKey, hkey]
    rw [hstring, hlong, Option.getD_some, ite_self]
  | none =>
    cases hnumeric : isNumericString key with
    | none => exact hstring
    | some n =>
      dsimp only
      rw [h hkey n hnumeric, if_neg (by simp), hstring]

/-- **The code enters a value** at the end of the path of the subkeys' keys, by induction on the path. -/
theorem enterStat_eq (value : Bytes) {path : List Bytes} (hpath : path ≠ []) :
    ∀ {r : StatsValue}, r.KeysIn Canonical → NoClash path r →
      enterStat value path r
        = Value.setPath (path.map zendSymtableKey) (.scalar (.string value)) r := by
  induction path with
  | nil => exact absurd rfl hpath
  | cons p path ih =>
    intro r hr hclash
    cases path with
    | nil => rw [enterStat, toArray_set, List.map_cons, List.map_nil, Value.setPath, Value.setPath]
    | cons q path =>
      have hkey : selectSubkey r.toArray p = zendSymtableKey p := by
        refine selectSubkey_eq (keysIn_toArray hr) fun hnumeric n hn => ?_
        rw [toArray_find]
        exact hclash.1 (by simp) hnumeric n hn
      rw [enterStat_cons value p (by simp), hkey, toArray_set, toArray_find,
        ih (by simp) (keysIn_getD hr _) hclash.2]
      rfl

theorem intercalate_ne_nil {c : UInt8} {path : List Bytes} (hpath : path ≠ [])
    (hlast : path.getLast? ≠ some []) : List.intercalate [c] path ≠ [] := by
  cases path with
  | nil => exact absurd rfl hpath
  | cons p path =>
    cases path with
    | nil =>
      rw [List.intercalate_singleton]
      rintro rfl
      exact hlast rfl
    | cons q path =>
      rw [List.intercalate_cons_cons]
      simp

/-- The subkeys of a name put together from subkeys, by induction on the path. -/
theorem subkeys_intercalate {path : List Bytes} (hpath : path ≠ []) (h : ∀ p ∈ path, 58 ∉ p)
    (hlast : path.getLast? ≠ some []) : subkeys (List.intercalate [58] path) = path := by
  induction path with
  | nil => exact absurd rfl hpath
  | cons p path ih =>
    have hp := h p List.mem_cons_self
    cases path with
    | nil =>
      have hne : p ≠ [] := by
        rintro rfl
        exact hlast rfl
      rw [List.intercalate_singleton, subkeys,
        subkeysFrom_last hne (fun hmem => hp (List.mem_of_mem_dropLast hmem)), List.nil_append]
    | cons q path =>
      rw [List.getLast?_cons_cons] at hlast
      have hrest := intercalate_ne_nil (c := 58) (List.cons_ne_nil q path) hlast
      rw [List.intercalate_cons_cons, List.append_assoc, List.singleton_append, subkeys,
        subkeysFrom_colon hp hrest, List.nil_append,
        ih (by simp) (fun p' hp' => h p' (List.mem_cons_of_mem p hp')) hlast]

theorem not_mem_intercalate {c d : UInt8} (hne : d ≠ c) {path : List Bytes} (h : ∀ p ∈ path, d ∉ p) :
    d ∉ List.intercalate [c] path := by
  induction path with
  | nil => simp
  | cons p path ih =>
    have hp := h p List.mem_cons_self
    cases path with
    | nil => rwa [List.intercalate_singleton]
    | cons q path =>
      have hrest := ih fun p' hp' => h p' (List.mem_cons_of_mem p hp')
      rw [List.intercalate_cons_cons]
      simp [hp, hne, hrest]

/-- A line that was read fits the buffer. -/
theorem LineRead.short {line : Bytes} (h : LineRead line) : line.length < 2 ^ 32 := by
  obtain ⟨w, v, hinput, hread⟩ := h
  exact (mmcStreamGetLine_some hread hinput).2.1.trans (by norm_num [MMC_BUFFER_SIZE])

/-- A `STAT` line is passed to its parser. -/
theorem statsStep_stat {rest : Bytes} (hshort : (statFront ++ rest ++ crlf).length < 2 ^ 32)
    (r : StatsValue) :
    statsStep (statFront ++ rest ++ crlf) r
      = (mmcStatsParseStat (statFront ++ rest ++ [0, 10]) statFront.length (4 + rest.length) r).map
        statsVerdict := by
  have hresponse : mmcRequestCheckResponse (statFront ++ rest ++ crlf) = MMC_RESPONSE_UNKNOWN := rfl
  have htake : (statFront ++ rest ++ [0, 10]).take (statFront ++ rest).length = statFront ++ rest := by
    rw [List.take_left]
  have hstop : (statFront ++ rest).length - 1 = 4 + rest.length := by
    have hfront : statFront.length = 5 := rfl
    rw [List.length_append, hfront]
    omega
  rw [statsStep, messageLen_crlf hshort, hresponse, chopLine_crlf, mmcStatsHandler, if_pos (by decide),
    if_neg (by rw [List.length_append]; simp [statFront, bytes]), htake, hstop]
  rw [if_neg (by simp [mmcStrLeft, statFront, bytes]), if_pos (by simp [mmcStrLeft])]

/-- **Lines that fit do what they say**, in every state that the lines before may have left. -/
theorem statsLine_right {r : StatsValue} {line : Bytes} (h : StatsReached r) (hread : LineRead line)
    (hfits : LineFits r line) : LineRight r line := by
  constructor
  · intro path value hpath hparts hline
    obtain ⟨hvalue, hlast, hclash⟩ := hfits.1 path value hpath hparts hline
    have hname := intercalate_ne_nil (c := 58) hpath hlast
    have hspace : 32 ∉ List.intercalate [58] path :=
      not_mem_intercalate (by decide) fun p hp => (hparts p hp).2
    have hsplit : line = statFront ++ (List.intercalate [58] path ++ 32 :: value) ++ crlf := by
      rw [hline, statLine]
      simp only [List.append_assoc]
    have hshort := hread.short
    have hparse := @mmcStatsParseStat_enters statFront (List.intercalate [58] path ++ 32 :: value) [0, 10]
      statFront.length (4 + (List.intercalate [58] path ++ 32 :: value).length) rfl
      (Nat.add_right_comm 4 _ 1) (by decide) _ value rfl hname hspace hvalue r
    have hkeys := subkeys_intercalate hpath (fun p hp => (hparts p hp).1) hlast
    rw [hsplit] at hshort ⊢
    refine ⟨enterStat value path r, ?_, ?_, ?_⟩
    · rw [statsStep_stat hshort, hparse, hkeys]
      rfl
    · rw [enterStat_eq value hpath h.keysIn hclash, Value.get_setPath_self]
    · intro other hpart hpart'
      rw [enterStat_eq value hpath h.keysIn hclash, Value.get_setPath_of_parted _ _ hpart hpart']
  · intro name value hspace hgeneric hline
    exact absurd hline (hfits.2 name value hspace hgeneric)

/-- Lists cut at the first `c`. -/
theorem cut_inj {c : UInt8} {s t u v : Bytes} (hs : c ∉ s) (ht : c ∉ t) (h : s ++ c :: u = t ++ c :: v) :
    s = t ∧ u = v := by
  induction s generalizing t with
  | nil =>
    cases t with
    | nil => exact ⟨rfl, (List.cons.inj h).2⟩
    | cons b t => exact absurd (List.cons.inj h).1 fun hb => ht (hb ▸ List.mem_cons_self)
  | cons b s ih =>
    cases t with
    | nil => exact absurd (List.cons.inj h).1.symm fun hb => hs (hb ▸ List.mem_cons_self)
    | cons d t =>
      obtain ⟨rfl, hrest⟩ := List.cons.inj h
      obtain ⟨rfl, hlater⟩ := ih (fun hmem => hs (List.mem_cons_of_mem b hmem))
        (fun hmem => ht (List.mem_cons_of_mem b hmem)) hrest
      exact ⟨rfl, hlater⟩

/-- A `STAT` line with a value and a last subkey fits where no subkey clashes. -/
theorem lineFits_statLine {r : StatsValue} {path : List Bytes} {value : Bytes} (hpath : path ≠ [])
    (hparts : ∀ p ∈ path, 58 ∉ p ∧ 32 ∉ p) (hvalue : value ≠ []) (hlast : path.getLast? ≠ some [])
    (hclash : NoClash path r) : LineFits r (statLine path value) := by
  constructor
  · intro path' value' hpath' hparts' hline
    rw [statLine, statLine, List.append_left_inj, List.append_assoc, List.append_assoc,
      List.append_right_inj] at hline
    have hspace : 32 ∉ List.intercalate [58] path :=
      not_mem_intercalate (by decide) fun p hp => (hparts p hp).2
    have hspace' : 32 ∉ List.intercalate [58] path' :=
      not_mem_intercalate (by decide) fun p hp => (hparts' p hp).2
    obtain ⟨hname, rfl⟩ := cut_inj hspace hspace' hline
    have hsame : path = path' := by
      rw [← List.splitOn_intercalate 58 (fun p hp => (hparts p hp).1) hpath, hname,
        List.splitOn_intercalate 58 (fun p hp => (hparts' p hp).1) hpath']
    subst hsame
    exact ⟨hvalue, hlast, hclash⟩
  · intro name value' _ hgeneric hline
    rw [statLine, List.append_left_inj] at hline
    have hfront := hgeneric.2 statFront (by simp)
    rw [← hline, List.append_assoc, mmcStrLeft,
      List.isPrefixOf_iff_prefix.mpr (List.prefix_append _ _)] at hfront
    cases hfront

/-- `STAT 6:chunk_size 64`. -/
theorem chunkSize_right : LineRight (.scalar (.bool false))
    (statLine [[54], bytes ['c', 'h', 'u', 'n', 'k', '_', 's', 'i', 'z', 'e']] [54, 52]) := by
  refine statsLine_right .first
    ⟨{ io := {}, chunks := [bytes "STAT 6:chunk_size 64\r\n".toList], req := {} }, _, by decide, rfl⟩
    (lineFits_statLine (by decide) (by decide) (by decide) (by decide) ?_)
  exact ⟨fun _ _ _ _ => rfl, fun _ _ _ _ => rfl, trivial⟩

/-! ## Other lines -/

theorem mmcStrLeft_crlf (message : Bytes) {word : Bytes} (h : 13 ∉ word) :
    mmcStrLeft (message ++ crlf) word = mmcStrLeft message word := by
  rw [mmcStrLeft, mmcStrLeft]
  induction word generalizing message with
  | nil => simp
  | cons b word ih =>
    rw [List.mem_cons, not_or] at h
    cases message with
    | nil => simp [crlf, List.isPrefixOf, Ne.symm h.1]
    | cons c message => simp [List.isPrefixOf, ih message h.2]

theorem mmcRequestCheckResponse_crlf (message : Bytes) :
    mmcRequestCheckResponse (message ++ crlf) = mmcRequestCheckResponse message := by
  unfold mmcRequestCheckResponse
  simp (disch := decide) only [mmcStrLeft_crlf]

/-- A NUL is no digit. -/
theorem zendHandleNumericStr_nul (name : Bytes) : zendHandleNumericStr (name ++ [0]) = none := by
  have hdigits : ¬((if (name ++ [0]).head? = some 45 then (name ++ [0]).tail else name ++ [0]).all
      isDigit) = true := by
    intro hall
    have hnul : (0 : UInt8) ∈ if (name ++ [0]).head? = some 45 then (name ++ [0]).tail else name ++ [0] := by
      cases name with
      | nil => decide
      | cons b name => split <;> simp
    exact absurd (List.all_eq_true.mp hall 0 hnul) (by decide)
  rw [zendHandleNumericStr, if_pos (.inr (.inl hdigits))]

/-- **A line that is left to the generic parser** gets a NUL behind its name and another behind its
    value. -/
theorem statsStep_generic {name value : Bytes} (hspace : 32 ∉ name)
    (hgeneric : Generic (name ++ 32 :: value)) (hshort : (name ++ 32 :: value ++ crlf).length < 2 ^ 32)
    (r : StatsValue) :
    statsStep (name ++ 32 :: value ++ crlf) r
      = .ok (.again, r.set (.string (name ++ [0])) (.scalar (.string (value ++ [0])))) := by
  have htake : (name ++ 32 :: value ++ [0, 10]).take (name ++ 32 :: value).length = name ++ 32 :: value := by
    rw [List.take_left]
  have hfront (front : Bytes) (h : front ∈ [bytes ['R', 'E', 'S', 'E', 'T'], statFront, itemFront,
      bytes ['E', 'N', 'D']]) : ¬mmcStrLeft (name ++ 32 :: value) front = true := by
    rw [hgeneric.2 front h]
    decide
  have hpos : (name ++ 32 :: value).length ≠ 0 := by simp
  have hsearch : phpMemnstr (name ++ 32 :: value ++ [0, 10]) 0 32 (name ++ 32 :: value).length
      = .ok (some name.length) := by
    have h := @phpMemnstr_some [] name value [0, 10] 32 hspace 0 (name ++ 32 :: value).length rfl
      (by simp; omega)
    simpa using h
  rw [statsStep, messageLen_crlf hshort, mmcRequestCheckResponse_crlf, chopLine_crlf, mmcStatsHandler,
    if_pos hgeneric.1, if_neg hpos, htake, if_neg (hfront _ (by simp)), if_neg (hfront _ (by simp)),
    if_neg (hfront _ (by simp)), if_neg (hfront _ (by simp)), mmcStatsParseGeneric]
  have hkey : ((name ++ 32 :: value ++ [0, 10]).drop 0).take (name.length - 0) = name := by
    rw [List.drop_zero, Nat.sub_zero, List.append_assoc, List.take_left]
  have hvalue : ((name ++ 32 :: value ++ [0, 10]).drop (name.length + 1)).take
      ((name ++ 32 :: value).length - name.length) = value ++ [0] := by
    have hline : name ++ 32 :: value ++ [0, 10] = (name ++ [32]) ++ (value ++ [0] ++ [10]) := by simp
    have hplace : name.length + 1 = (name ++ [32]).length := by simp
    have hcount : (name ++ 32 :: value).length - name.length = (value ++ [0]).length := by simp
    rw [hline, hplace, hcount, List.drop_left, List.take_left]
  have hname : zendSymtableKey (name ++ [0]) = .string (name ++ [0]) := by
    rw [zendSymtableKey, zendHandleNumericStr_nul]
  rw [if_pos (Nat.pos_of_ne_zero hpos)]
  simp only [hsearch, hkey, hvalue, hname, toArray_set, bind, Except.bind]
  rfl

/-- The line `64 1` of the sizes of items. -/
theorem sizesLine_not_right :
    ¬∀ (r : StatsValue) (line : Bytes), StatsReached r → LineRead line → LineRight r line := by
  intro h
  have hline := h (.scalar (.bool false)) ([54, 52] ++ 32 :: [49] ++ crlf) .first
    ⟨{ io := {}, chunks := [[54, 52] ++ 32 :: [49] ++ crlf], req := {} }, _, by decide, rfl⟩
  have hgeneric : Generic ([54, 52] ++ 32 :: [49]) := ⟨by decide, by decide⟩
  obtain ⟨r', hstep, hget, -⟩ := hline.2 [54, 52] [49] (by decide) hgeneric rfl
  rw [statsStep_generic (by decide) hgeneric (by decide)] at hstep
  cases hstep
  cases hget

end PeclMemcache
