import PeclMemcache.Replies

set_option autoImplicit false

/-! # Key prefixes with a host name

`get_key_prefix` and `get_session_key_prefix` put a static prefix and the name of the server in front of
every key. To take the subdomains off, the name is searched from its end for dots, whose places go into
an array of three pointers; the search stops where their number is the size of the array in bytes. -/

namespace PeclMemcache

/-! ## The settings and the result -/

/-- The settings of a prefix. -/
structure PrefixSettings where
  staticKey : Option Bytes := none
  hostKey : Bool := false
  hostKeyRemoveWww : Bool := false
  hostKeyRemoveSubdomain : Bool := false

/-- A length that is no `int`, where the conversion may give anything. -/
inductive PrefixError
  | lengthOverflow
  deriving DecidableEq, Repr

/-- The entries of `dots_ptr` that were written, and the prefix or `NULL`. -/
structure PrefixResult where
  written : List Nat
  keyPrefix : Option Bytes
  deriving DecidableEq, Repr

/-- `sizeof(dots_ptr)`: three pointers. -/
def dotsPtrSize : Nat := 24

/-- The `int` of a length. -/
def intLength (n : Nat) : Except PrefixError Nat := if n < 2 ^ 31 then .ok n else .error .lengthOverflow

/-- `!strncasecmp("www.", name, 4)`. -/
def startsWithWww (name : Bytes) : Bool :=
  (name.take 4).map (fun b => if 65 ≤ b ∧ b ≤ 90 then b + 32 else b) = bytes ['w', 'w', 'w', '.']

/-- The loop over `i`, with the places of the dots that were stored. -/
def scanDots (name : Bytes) : Nat → List Nat → List Nat
  | 0, dots => dots
  | i + 1, dots =>
    if dots.length = dotsPtrSize then dots
    else if name[i + 1]? = some 46 then scanDots name i (dots ++ [i + 1])
    else scanDots name i dots

/-- The name behind the second dot from the end, and the dots that were stored. -/
def removeSubdomain (name : Bytes) : Except PrefixError (List Nat × Bytes) :=
  (intLength name.length).map fun length =>
    let dots := scanDots name length []
    match dots[1]? with
    | none => (dots, name)
    | some dot => if name[dot + 1]? = none then (dots, name) else (dots, name.drop (dot + 1))

/-- The name without its `www.`. -/
def withoutWww (s : PrefixSettings) (name : Bytes) : Bytes :=
  if s.hostKeyRemoveWww ∧ startsWithWww name then name.drop 4 else name

/-- `server_name`, made from `$_SERVER['SERVER_NAME']`. -/
def serverNamePart (s : PrefixSettings) (token : Bytes) : Except PrefixError (List Nat × Bytes) :=
  let name := withoutWww s (cString token)
  if s.hostKeyRemoveSubdomain then removeSubdomain name else .ok ([], name)

/-- The end of both functions: the parts are copied, if there are any. -/
def joinParts (staticKey serverName : Bytes) (dots : List Nat) : Except PrefixError PrefixResult := do
  let staticKeyLen ← intLength staticKey.length
  let serverNameLen ← intLength serverName.length
  if staticKeyLen = 0 ∧ serverNameLen = 0 then
    return { written := List.range dots.length, keyPrefix := none }
  let _ ← intLength (staticKeyLen + serverNameLen + 1)
  return { written := List.range dots.length, keyPrefix := some (staticKey ++ serverName) }

/-- The body of both functions. `serverName` is there if `$_SERVER` is an array with a string under
    `SERVER_NAME`. -/
def makePrefix (s : PrefixSettings) (serverName : Option Bytes) : Except PrefixError PrefixResult :=
  let staticKey := cString (s.staticKey.getD [])
  if s.hostKey then
    match serverName with
    | none => joinParts staticKey [] []
    | some token => (serverNamePart s token).bind fun (dots, name) => joinParts staticKey name dots
  else joinParts staticKey [] []

/-- The settings of the module. -/
structure PrefixGlobals where
  prefixStaticKey : Option Bytes
  prefixHostKey : Bool
  prefixHostKeyRemoveWww : Bool
  prefixHostKeyRemoveSubdomain : Bool
  sessionPrefixStaticKey : Option Bytes
  sessionPrefixHostKey : Bool
  sessionPrefixHostKeyRemoveWww : Bool
  sessionPrefixHostKeyRemoveSubdomain : Bool

/-- The settings `get_key_prefix` reads. -/
def PrefixGlobals.keySettings (g : PrefixGlobals) : PrefixSettings where
  staticKey := g.prefixStaticKey
  hostKey := g.prefixHostKey
  hostKeyRemoveWww := g.prefixHostKeyRemoveWww
  hostKeyRemoveSubdomain := g.prefixHostKeyRemoveSubdomain

/-- The settings `get_session_key_prefix` reads. -/
def PrefixGlobals.sessionSettings (g : PrefixGlobals) : PrefixSettings where
  staticKey := g.sessionPrefixStaticKey
  hostKey := g.sessionPrefixHostKey
  hostKeyRemoveWww := g.sessionPrefixHostKeyRemoveWww
  hostKeyRemoveSubdomain := g.sessionPrefixHostKeyRemoveSubdomain

/-- `get_key_prefix`. -/
def getKeyPrefix (g : PrefixGlobals) (serverName : Option Bytes) : Except PrefixError PrefixResult :=
  makePrefix g.keySettings serverName

/-- `get_session_key_prefix`. -/
def getSessionKeyPrefix (g : PrefixGlobals) (serverName : Option Bytes) :
    Except PrefixError PrefixResult :=
  makePrefix g.sessionSettings serverName

/-! ## The wanted prefix -/

/-- The part of a name behind its second-last dot. -/
def afterSecondLastDot : Bytes → Option Bytes
  | [] => none
  | b :: rest => if b = 46 ∧ rest.count 46 = 1 then some rest else afterSecondLastDot rest

/-- The part of the name that belongs into the prefix. -/
def hostPart (s : PrefixSettings) (name : Bytes) : Bytes :=
  let host := withoutWww s name
  if s.hostKeyRemoveSubdomain then (afterSecondLastDot host).getD host else host

/-- The name that is used, if any. -/
def PrefixSettings.usedName (s : PrefixSettings) (serverName : Option Bytes) : Option Bytes :=
  if s.hostKey then serverName else none

/-- The static prefix and the part of the name. -/
def wantedPrefix (s : PrefixSettings) (serverName : Option Bytes) : Bytes :=
  s.staticKey.getD [] ++ (s.usedName serverName).elim [] (hostPart s)

/-- Only the three entries of `dots_ptr` are written, and the prefix is the wanted one; `NULL` is no
    prefix. -/
def PrefixRight (s : PrefixSettings) (serverName : Option Bytes)
    (result : Except PrefixError PrefixResult) : Prop :=
  ∃ r, result = .ok r ∧ (∀ i ∈ r.written, i < 3) ∧ r.keyPrefix.getD [] = wantedPrefix s serverName

/-- The names that the search for dots is right about: it does not look at the first byte, and it has
    room for three dots. -/
structure DotsFit (host : Bytes) : Prop where
  three : (host.drop 1).count 46 ≤ 3
  first : ¬(host.head? = some 46 ∧ host.count 46 = 2)
  short : host.length < 2 ^ 31

/-- The settings and names that a prefix is right for. -/
structure PrefixFits (s : PrefixSettings) (serverName : Option Bytes) : Prop where
  static : 0 ∉ s.staticKey.getD []
  name : ∀ n ∈ s.usedName serverName, hostPart s (cString n) = hostPart s n
  dots : s.hostKeyRemoveSubdomain = true →
    ∀ n ∈ s.usedName serverName, DotsFit (withoutWww s (cString n))
  short : (wantedPrefix s serverName).length + 1 < 2 ^ 31

/-! ## The search for dots -/

/-- The places of the dots, from the front. -/
def dotPlaces : Bytes → List Nat
  | [] => []
  | b :: rest => (if b = 46 then [0] else []) ++ (dotPlaces rest).map (· + 1)

theorem length_dotPlaces (name : Bytes) : (dotPlaces name).length = name.count 46 := by
  induction name with
  | nil => rfl
  | cons b rest ih =>
    rw [dotPlaces, List.length_append, List.length_map, ih, List.count_cons]
    by_cases hb : b = 46
    · simp [hb, Nat.add_comm]
    · simp [hb]

theorem dotPlaces_append (front back : Bytes) :
    dotPlaces (front ++ back) = dotPlaces front ++ (dotPlaces back).map (· + front.length) := by
  induction front with
  | nil => simp [dotPlaces]
  | cons b front ih =>
    simp [dotPlaces, ih, Nat.add_assoc, Function.comp_def]

/-- The search from a place on stores the dots up to there, the last one first, until 24 are stored. -/
theorem scanDots_eq (b : UInt8) (name : Bytes) (i : Nat) (dots : List Nat) (hi : i ≤ name.length)
    (hdots : dots.length ≤ dotsPtrSize) :
    scanDots (b :: name) i dots
      = (dots ++ ((dotPlaces (name.take i)).map (· + 1)).reverse).take dotsPtrSize := by
  induction i generalizing dots with
  | zero => simp [scanDots, dotPlaces, List.take_of_length_le hdots]
  | succ i ih =>
    have hlast : name.take (i + 1) = name.take i ++ [name[i]] := by
      rw [List.take_succ_eq_append_getElem (by omega)]
    have hplaces : dotPlaces (name.take (i + 1)) = dotPlaces (name.take i)
        ++ if name[i] = 46 then [i] else [] := by
      rw [hlast, dotPlaces_append]
      by_cases hdot : name[i] = 46
      · simp [dotPlaces, hdot, Nat.min_eq_left (show i ≤ name.length by omega)]
      · simp [dotPlaces, hdot]
    have hread : (b :: name)[i + 1]? = some name[i] := by simp
    rw [scanDots, hread, hplaces]
    by_cases hfull : dots.length = dotsPtrSize
    · rw [if_pos hfull, ← hfull, List.take_left]
    · rw [if_neg hfull]
      by_cases hdot : name[i] = 46
      · rw [if_pos (by rw [hdot]), if_pos hdot, ih _ (by omega) (by simp; omega)]
        simp
      · rw [if_neg (by simpa using hdot), if_neg hdot, ih _ (by omega) hdots]
        simp

/-- The second dot from the end. -/
theorem afterSecondLastDot_eq (name : Bytes) :
    afterSecondLastDot name = ((dotPlaces name).reverse[1]?).map fun i => name.drop (i + 1) := by
  induction name with
  | nil => rfl
  | cons b rest ih =>
    have hcount := length_dotPlaces rest
    rw [afterSecondLastDot, ih, dotPlaces, List.reverse_append, ← List.map_reverse]
    rw [← List.length_reverse] at hcount
    generalize (dotPlaces rest).reverse = places at hcount ⊢
    rcases places with _ | ⟨i, _ | ⟨j, later⟩⟩
    · by_cases hb : b = 46 <;> simp [hb, ← hcount]
    · by_cases hb : b = 46 <;> simp [hb, ← hcount]
    · simp [← hcount]

/-- How many dots the search stores, and the second of them. -/
theorem scanDots_spec (name : Bytes) :
    (scanDots name name.length []).length = min dotsPtrSize ((name.drop 1).count 46) ∧
      ((scanDots name name.length [])[1]?).map (fun i => name.drop (i + 1))
        = afterSecondLastDot (name.drop 1) := by
  cases name with
  | nil => exact ⟨rfl, rfl⟩
  | cons b rest =>
    -- the first turn reads the NUL behind the name
    have hfirst : scanDots (b :: rest) (b :: rest).length [] = scanDots (b :: rest) rest.length [] := by
      have hnul : (b :: rest)[rest.length + 1]? = none := by simp
      rw [List.length_cons, scanDots, hnul, if_neg (by decide), if_neg (by decide)]
    rw [hfirst, scanDots_eq b rest rest.length [] (Nat.le_refl _) (by decide), List.take_length,
      List.nil_append, List.drop_one, List.tail_cons, afterSecondLastDot_eq, ← List.map_reverse]
    refine ⟨by simp [length_dotPlaces], ?_⟩
    rw [List.getElem?_take_of_lt (by decide), List.getElem?_map, Option.map_map]
    rfl

theorem count_afterSecondLastDot {name part : Bytes} (h : afterSecondLastDot name = some part) :
    part.count 46 = 1 := by
  induction name with
  | nil => cases h
  | cons b rest ih =>
    rw [afterSecondLastDot] at h
    split at h
    · next hdot =>
      cases h
      exact hdot.2
    · exact ih h

/-- The name with fewer than two dots, if there is no such part. -/
theorem count_of_afterSecondLastDot_eq_none {name : Bytes} (h : afterSecondLastDot name = none) :
    name.count 46 ≤ 1 := by
  rw [afterSecondLastDot_eq, Option.map_eq_none_iff, List.getElem?_eq_none_iff, List.length_reverse,
    length_dotPlaces] at h
  exact h

/-- What the code takes of a name: the search for dots leaves out the first byte. -/
def takenPart (s : PrefixSettings) (host : Bytes) : Bytes :=
  if s.hostKeyRemoveSubdomain then (afterSecondLastDot (host.drop 1)).getD host else host

/-- How many dots are stored. -/
def storedDots (s : PrefixSettings) (host : Bytes) : Nat :=
  if s.hostKeyRemoveSubdomain then min dotsPtrSize ((host.drop 1).count 46) else 0

theorem removeSubdomain_eq (host : Bytes) :
    ∃ dots, removeSubdomain host
        = (intLength host.length).map (fun _ => (dots, (afterSecondLastDot (host.drop 1)).getD host)) ∧
      dots.length = min dotsPtrSize ((host.drop 1).count 46) := by
  obtain ⟨hlength, hsecond⟩ := scanDots_spec host
  refine ⟨scanDots host host.length [], ?_, hlength⟩
  rw [removeSubdomain, intLength]
  split
  · rw [Except.map, Except.map]
    congr 1
    rw [← hsecond]
    dsimp only
    cases hdot : (scanDots host host.length [])[1]? with
    | none => rfl
    | some dot =>
      -- behind the second dot there is at least the first one
      have hpart := hsecond.symm
      rw [hdot, Option.map_some] at hpart
      have hnil : host[dot + 1]? ≠ none := by
        intro hend
        have hcount := count_afterSecondLastDot hpart
        rw [List.drop_eq_nil_of_le (List.getElem?_eq_none_iff.mp hend)] at hcount
        cases hcount
      dsimp only
      rw [if_neg hnil]
      rfl
  · rfl

/-- The part of the name and the number of stored dots. -/
theorem serverNamePart_eq (s : PrefixSettings) (token : Bytes) :
    ∃ dots, serverNamePart s token = (if s.hostKeyRemoveSubdomain then
          intLength (withoutWww s (cString token)).length else .ok 0).map
            (fun _ => (dots, takenPart s (withoutWww s (cString token)))) ∧
      dots.length = storedDots s (withoutWww s (cString token)) := by
  unfold serverNamePart takenPart storedDots
  cases s.hostKeyRemoveSubdomain with
  | false => exact ⟨[], rfl, rfl⟩
  | true => exact removeSubdomain_eq _

theorem intLength_of_lt {n : Nat} (h : n < 2 ^ 31) : intLength n = .ok n := if_pos h

theorem intLength_of_not_lt {n : Nat} (h : ¬n < 2 ^ 31) : intLength n = .error .lengthOverflow := if_neg h

/-- The parts are joined if their length is a number. -/
theorem joinParts_eq (staticKey name : Bytes) (dots : List Nat) :
    joinParts staticKey name dots
      = if (staticKey ++ name).length + 1 < 2 ^ 31 then
          .ok ⟨List.range dots.length, if staticKey ++ name = [] then none else some (staticKey ++ name)⟩
        else .error .lengthOverflow := by
  rw [List.length_append]
  by_cases htotal : staticKey.length + name.length + 1 < 2 ^ 31
  · have hstatic : staticKey.length < 2 ^ 31 := by omega
    have hname : name.length < 2 ^ 31 := by omega
    rw [if_pos htotal]
    simp only [joinParts, intLength_of_lt hstatic, intLength_of_lt hname, bind, Except.bind,
      intLength_of_lt htotal, pure, Except.pure, List.length_eq_zero_iff, List.append_eq_nil_iff]
    split <;> rfl
  · rw [if_neg htotal]
    by_cases hstatic : staticKey.length < 2 ^ 31
    · by_cases hname : name.length < 2 ^ 31
      · simp only [joinParts, intLength_of_lt hstatic, intLength_of_lt hname, bind, Except.bind,
          intLength_of_not_lt htotal]
        rw [if_neg (by omega)]
      · simp only [joinParts, intLength_of_lt hstatic, intLength_of_not_lt hname, bind, Except.bind]
    · simp only [joinParts, intLength_of_not_lt hstatic, bind, Except.bind]

theorem joinParts_right_iff (staticKey name : Bytes) (dots : List Nat) (wanted : Bytes) :
    (∃ r, joinParts staticKey name dots = .ok r ∧ (∀ i ∈ r.written, i < 3) ∧
        r.keyPrefix.getD [] = wanted) ↔
      dots.length ≤ 3 ∧ (staticKey ++ name).length + 1 < 2 ^ 31 ∧ staticKey ++ name = wanted := by
  have hwritten : (∀ i ∈ List.range dots.length, i < 3) ↔ dots.length ≤ 3 := by
    simp only [List.mem_range]
    refine ⟨fun h => ?_, fun h i hi => by omega⟩
    by_contra hlong
    exact absurd (h 3 (by omega)) (by decide)
  have hprefix : (if staticKey ++ name = [] then none else some (staticKey ++ name)).getD []
      = staticKey ++ name := by
    split <;> simp [*]
  rw [joinParts_eq]
  split
  · next hshort =>
    simp only [Except.ok.injEq, exists_eq_left', hwritten, hprefix, hshort, true_and]
  · next hlong =>
    refine iff_of_false ?_ fun h => hlong h.2.1
    rintro ⟨r, h, -⟩
    cases h

/-- The name is not used. -/
theorem makePrefix_of_unused {s : PrefixSettings} {serverName : Option Bytes}
    (h : s.usedName serverName = none) :
    makePrefix s serverName = joinParts (cString (s.staticKey.getD [])) [] [] := by
  unfold makePrefix
  unfold PrefixSettings.usedName at h
  split at h <;> simp [*]

theorem makePrefix_of_used {s : PrefixSettings} {serverName : Option Bytes} {token : Bytes}
    (h : s.usedName serverName = some token) :
    makePrefix s serverName = (serverNamePart s token).bind fun (dots, name) =>
      joinParts (cString (s.staticKey.getD [])) name dots := by
  unfold makePrefix
  unfold PrefixSettings.usedName at h
  split at h <;> simp_all

theorem zero_not_mem_cString (s : Bytes) : 0 ∉ cString s := by
  intro h
  simpa using List.mem_takeWhile_imp h

/-- The static prefix and the part are taken for what they should be only if neither the one nor the
    other is cut at a NUL. -/
theorem cString_append_eq_iff {static name want : Bytes} (hname : 0 ∉ name) :
    cString static ++ name = static ++ want ↔ 0 ∉ static ∧ name = want := by
  constructor
  · intro h
    have hstatic : 0 ∉ static := by
      intro hmem
      have hleft : (0 : UInt8) ∉ cString static ++ name := by
        simpa [hname] using zero_not_mem_cString static
      exact hleft (h ▸ List.mem_append_left want hmem)
    rw [cString_eq_self hstatic] at h
    exact ⟨hstatic, List.append_cancel_left h⟩
  · rintro ⟨hstatic, rfl⟩
    rw [cString_eq_self hstatic]

/-! ## The part that is taken -/

theorem takenPart_eq {s : PrefixSettings} {host : Bytes}
    (h : s.hostKeyRemoveSubdomain = true → ¬(host.head? = some 46 ∧ host.count 46 = 2)) :
    takenPart s host = if s.hostKeyRemoveSubdomain then (afterSecondLastDot host).getD host else host := by
  unfold takenPart
  cases hremove : s.hostKeyRemoveSubdomain with
  | false => rfl
  | true =>
    cases host with
    | nil => rfl
    | cons b rest =>
      have hfirst : ¬(b = 46 ∧ rest.count 46 = 1) := by
        rintro ⟨rfl, hcount⟩
        exact h hremove ⟨rfl, by rw [List.count_cons_self, hcount]⟩
      rw [afterSecondLastDot, if_neg hfirst]
      rfl

/-- With a first dot and another one, the search finds one dot only. -/
theorem takenPart_of_first {s : PrefixSettings} {host : Bytes} (hremove : s.hostKeyRemoveSubdomain = true)
    (hhead : host.head? = some 46) (hcount : host.count 46 = 2) : takenPart s host = host := by
  cases host with
  | nil => cases hhead
  | cons b rest =>
    cases hhead
    rw [List.count_cons_self] at hcount
    have hplaces := length_dotPlaces rest
    rw [takenPart, if_pos hremove, List.drop_one, List.tail_cons, afterSecondLastDot_eq,
      List.getElem?_eq_none (by rw [List.length_reverse]; omega)]
    rfl

/-- A part without subdomains has at most one dot. -/
theorem count_hostPart {s : PrefixSettings} (hremove : s.hostKeyRemoveSubdomain = true) (name : Bytes) :
    (hostPart s name).count 46 ≤ 1 := by
  rw [hostPart, if_pos hremove]
  cases hpart : afterSecondLastDot (withoutWww s name) with
  | none => exact count_of_afterSecondLastDot_eq_none hpart
  | some part => exact (count_afterSecondLastDot hpart).le

theorem takenPart_eq_hostPart_iff (s : PrefixSettings) (token : Bytes) :
    takenPart s (withoutWww s (cString token)) = hostPart s token ↔
      (s.hostKeyRemoveSubdomain = true → ¬((withoutWww s (cString token)).head? = some 46 ∧
        (withoutWww s (cString token)).count 46 = 2)) ∧ hostPart s (cString token) = hostPart s token := by
  by_cases hfirst : s.hostKeyRemoveSubdomain = true → ¬((withoutWww s (cString token)).head? = some 46 ∧
      (withoutWww s (cString token)).count 46 = 2)
  · rw [takenPart_eq hfirst]
    exact (and_iff_right hfirst).symm
  · refine iff_of_false ?_ fun h => hfirst h.1
    rw [Classical.not_imp, not_not] at hfirst
    obtain ⟨hremove, hhead, hcount⟩ := hfirst
    intro heq
    rw [takenPart_of_first hremove hhead hcount] at heq
    have hone := count_hostPart hremove token
    rw [← heq, hcount] at hone
    omega

theorem zero_not_mem_takenPart (s : PrefixSettings) (token : Bytes) :
    0 ∉ takenPart s (withoutWww s (cString token)) := by
  have hsuffix : takenPart s (withoutWww s (cString token)) <:+ cString token := by
    have hwww : withoutWww s (cString token) <:+ cString token := by
      unfold withoutWww
      split
      · exact List.drop_suffix _ _
      · exact List.suffix_refl _
    refine List.IsSuffix.trans ?_ hwww
    unfold takenPart
    split
    · rw [afterSecondLastDot_eq]
      cases (dotPlaces ((withoutWww s (cString token)).drop 1)).reverse[1]? with
      | none => exact List.suffix_refl _
      | some i => exact (List.drop_suffix _ _).trans (List.drop_suffix _ _)
    · exact List.suffix_refl _
  exact fun hmem => zero_not_mem_cString token (hsuffix.mem hmem)

/-- The number of dots that are stored fits if it is searched for dots at all. -/
theorem storedDots_le_iff (s : PrefixSettings) (host : Bytes) :
    storedDots s host ≤ 3 ↔ (s.hostKeyRemoveSubdomain = true → (host.drop 1).count 46 ≤ 3) := by
  unfold storedDots dotsPtrSize
  cases s.hostKeyRemoveSubdomain with
  | false => simp
  | true =>
    simp only [if_true, true_imp_iff]
    omega

/-! ## The prefix -/

/-- The prefix with a name: the parts are joined where the name has a length. -/
theorem makePrefix_of_token {s : PrefixSettings} {serverName : Option Bytes} {token : Bytes}
    (h : s.usedName serverName = some token) :
    ∃ dots, dots.length = storedDots s (withoutWww s (cString token)) ∧
      makePrefix s serverName
        = if s.hostKeyRemoveSubdomain = true → (withoutWww s (cString token)).length < 2 ^ 31 then
            joinParts (cString (s.staticKey.getD [])) (takenPart s (withoutWww s (cString token))) dots
          else .error .lengthOverflow := by
  obtain ⟨dots, hpart, hdots⟩ := serverNamePart_eq s token
  refine ⟨dots, hdots, ?_⟩
  rw [makePrefix_of_used h, hpart]
  cases s.hostKeyRemoveSubdomain with
  | false => rfl
  | true =>
    by_cases hshort : (withoutWww s (cString token)).length < 2 ^ 31
    · rw [if_pos rfl, intLength_of_lt hshort, if_pos fun _ => hshort]
      rfl
    · rw [if_pos rfl, intLength_of_not_lt hshort, if_neg fun hall => hshort (hall rfl)]
      rfl

/-- A prefix is right exactly for the settings and names that fit. -/
theorem prefixRight_iff (s : PrefixSettings) (serverName : Option Bytes) :
    PrefixRight s serverName (makePrefix s serverName) ↔ PrefixFits s serverName := by
  cases hused : s.usedName serverName with
  | none =>
    rw [PrefixRight, makePrefix_of_unused hused, joinParts_right_iff, wantedPrefix, hused]
    rw [Option.elim_none, cString_append_eq_iff (List.not_mem_nil)]
    constructor
    · rintro ⟨-, hshort, hstatic, -⟩
      rw [cString_eq_self hstatic] at hshort
      exact ⟨hstatic, by simp [hused], by simp [hused], by simpa [wantedPrefix, hused] using hshort⟩
    · rintro ⟨hstatic, -, -, hshort⟩
      refine ⟨Nat.zero_le 3, ?_, hstatic, rfl⟩
      rw [cString_eq_self hstatic]
      simpa [wantedPrefix, hused] using hshort
  | some token =>
    obtain ⟨dots, hdots, hmake⟩ := makePrefix_of_token hused
    have hwanted : wantedPrefix s serverName = s.staticKey.getD [] ++ hostPart s token := by
      rw [wantedPrefix, hused, Option.elim_some]
    rw [PrefixRight, hmake]
    by_cases hshort : s.hostKeyRemoveSubdomain = true → (withoutWww s (cString token)).length < 2 ^ 31
    · rw [if_pos hshort, joinParts_right_iff, hdots, storedDots_le_iff, hwanted,
        cString_append_eq_iff (zero_not_mem_takenPart s token), takenPart_eq_hostPart_iff]
      constructor
      · rintro ⟨hthree, hlength, hstatic, hfirst, hname⟩
        have htaken := (takenPart_eq_hostPart_iff s token).mpr ⟨hfirst, hname⟩
        rw [cString_eq_self hstatic, htaken] at hlength
        refine ⟨hstatic, ?_, ?_, by rwa [hwanted]⟩
        · rintro n hn
          rw [hused, Option.mem_some_iff] at hn
          exact hn ▸ hname
        · rintro hremove n hn
          rw [hused, Option.mem_some_iff] at hn
          exact hn ▸ ⟨hthree hremove, hfirst hremove, hshort hremove⟩
      · rintro ⟨hstatic, hname, hfits, hlength⟩
        have hdot := fun hremove => hfits hremove token (by rw [hused]; rfl)
        have hsame := hname token (by rw [hused]; rfl)
        have htaken := (takenPart_eq_hostPart_iff s token).mpr
          ⟨fun hremove => (hdot hremove).first, hsame⟩
        refine ⟨fun hremove => (hdot hremove).three, ?_, hstatic, fun hremove => (hdot hremove).first, hsame⟩
        rw [cString_eq_self hstatic, htaken, ← hwanted]
        exact hlength
    · rw [if_neg hshort]
      refine iff_of_false ?_ fun h => hshort fun hremove =>
        (h.dots hremove token (by rw [hused]; rfl)).short
      rintro ⟨r, h, -⟩
      cases h

/-- **Both functions** write three entries at most and return the wanted prefix exactly for the settings
    and names that fit. -/
theorem keyPrefixes_right_iff (g : PrefixGlobals) (serverName : Option Bytes) :
    (PrefixRight g.keySettings serverName (getKeyPrefix g serverName) ↔
        PrefixFits g.keySettings serverName) ∧
      (PrefixRight g.sessionSettings serverName (getSessionKeyPrefix g serverName) ↔
        PrefixFits g.sessionSettings serverName) :=
  ⟨prefixRight_iff _ serverName, prefixRight_iff _ serverName⟩

/-- A name with four dots, which is asked for without its subdomains. -/
theorem fourDots_not_right :
    ¬PrefixRight { hostKey := true, hostKeyRemoveSubdomain := true }
      (some (bytes "a.b.c.example.org".toList))
      (makePrefix { hostKey := true, hostKeyRemoveSubdomain := true }
        (some (bytes "a.b.c.example.org".toList))) := by
  rw [prefixRight_iff]
  intro hfits
  exact absurd (hfits.dots rfl _ rfl).three (by decide)

example : (makePrefix { hostKey := true, hostKeyRemoveSubdomain := true }
    (some (bytes ".a.b".toList))).map PrefixResult.keyPrefix = .ok (some (bytes ".a.b".toList)) := by
  decide

end PeclMemcache
