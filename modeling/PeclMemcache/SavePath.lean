import PeclMemcache.Configuration
import PeclMemcache.Fields

set_option autoImplicit false

/-! # The servers of a session

`PS_OPEN` of `memcache_session.c` makes a pool of the servers whose URLs stand in the `save_path`, and
`PS_CLOSE` frees it. How PHP takes URLs and their parameters apart is not part of the repository, and is
a parameter here. -/

namespace PeclMemcache

open Fields

/-! ## URLs -/

/-- The components of a URL that are read. -/
structure PhpUrl where
  scheme : Option Bytes := none
  host : Option Bytes := none
  port : Nat := 0
  path : Option Bytes := none
  query : Option Bytes := none

/-- What PHP does with URLs and with the values `ζ` of their parameters: `phpUrlParse` is
    `php_url_parse_ex`, `treatData query name` is what `sapi_module.treat_data` stores under a name, and
    floating point numbers are `δ`. -/
structure UrlEnv (ζ δ : Type) where
  phpUrlParse : Bytes → Option PhpUrl
  treatData : Bytes → Bytes → Option ζ
  toBoolean : ζ → Bool
  toLong : ζ → Int
  toDouble : ζ → δ
  defaultTimeout : δ
  notPositive : δ → Bool
  doubleToTimeval : δ → Timeval

/-- The parameters of a server, as `int` where they are numbers. -/
structure UrlParams (δ : Type) where
  persistent : Bool
  udpPort : Int
  weight : Int
  timeout : δ
  retryInterval : Int

/-- The address of a server. Of the host name only the first bytes are kept in the server. -/
structure UrlAddress where
  host : Bytes
  hostLen : Nat
  tcpPort : Nat
  udpPort : Nat

variable {κ δ ζ : Type} (E : ConfigEnv κ δ) (U : UrlEnv ζ δ)

/-- `isspace(c) || c == ','`. -/
def isSeparator (c : UInt8) : Bool := isSpace c || c = 44

/-- A `zend_long` as an `int`. -/
def intOfLong (n : Int) : Int := Int.bmod n (2 ^ 32)

/-- The parameters in the query of a URL. -/
def urlParams (query : Option Bytes) : UrlParams δ :=
  let find (name : Bytes) := query.bind fun query => U.treatData query name
  { persistent := (find (bytes ['p', 'e', 'r', 's', 'i', 's', 't', 'e', 'n', 't'])).elim false U.toBoolean
    udpPort := (find (bytes ['u', 'd', 'p', '_', 'p', 'o', 'r', 't'])).elim 0 fun x => intOfLong (U.toLong x)
    weight := (find (bytes ['w', 'e', 'i', 'g', 'h', 't'])).elim 1 fun x => intOfLong (U.toLong x)
    timeout := (find (bytes ['t', 'i', 'm', 'e', 'o', 'u', 't'])).elim U.defaultTimeout U.toDouble
    retryInterval :=
      (find (bytes ['r', 'e', 't', 'r', 'y', '_', 'i', 'n', 't', 'e', 'r', 'v', 'a', 'l'])).elim 15 fun x =>
        intOfLong (U.toLong x) }

/-- The address of a `file:` URL: a trailing `:0` is not part of the host. -/
def unixAddress (path : Bytes) : UrlAddress :=
  let host := bytes ['u', 'n', 'i', 'x', ':', '/', '/'] ++ cString path
  { host
    hostLen := if host.drop (host.length - 2) = bytes [':', '0'] then host.length - 2 else host.length
    tcpPort := 0
    udpPort := 0 }

/-- The address of a server, or nothing for a URL that is refused. -/
def urlAddress (url : PhpUrl) (q : UrlParams δ) : Option UrlAddress :=
  if url.scheme = some (bytes ['f', 'i', 'l', 'e']) ∧ url.path.isSome then url.path.map unixAddress
  else
    match url.host with
    | none => none
    | some host =>
      if q.weight ≤ 0 ∨ U.notPositive q.timeout then none
      else some { host, hostLen := host.length, tcpPort := url.port, udpPort := (q.udpPort % 2 ^ 16).toNat }

/-- `unix:` is translated into `file:`. The comparison reads the path from `i` on, the copy ends at `j`. -/
def urlText (path : Bytes) (i j : Nat) : Bytes :=
  let text := (path.drop i).take (j - i)
  if (path.drop i).take 5 = bytes ['u', 'n', 'i', 'x', ':'] then
    bytes ['f', 'i', 'l', 'e', ':'] ++ text.drop 5
  else text

/-! ## The loop over the URLs -/

namespace Configuration

/-- `mmc_find_persistent`, where the key has all of the host string and the server its first bytes. -/
def mmcFindPersistentSized (s : Configuration κ δ) (a : UrlAddress) (timeout : Timeval)
    (retryInterval : Int) : Mmc × Configuration κ δ :=
  let key := persistentKey a.host a.tcpPort a.udpPort
  match s.persistentList key with
  | none =>
    let record := mmcServerNew (a.host.take a.hostLen) a.tcpPort a.udpPort true timeout retryInterval
    let (m, s) := s.allocate record
    (m, { s with persistentList := Function.update s.persistentList key (some m) })
  | some m =>
    let record := s.server m
    (m, { s with server := Function.update s.server m { record with
      timeout
      retryInterval
      tcpStatus := recheck record.tcpStatus
      udpStatus := recheck record.udpStatus } })

/-- The server at an address: `mmc_find_persistent` or `mmc_server_new`. -/
def serverAt (s : Configuration κ δ) (a : UrlAddress) (q : UrlParams δ) : Mmc × Configuration κ δ :=
  let timeout := U.doubleToTimeval q.timeout
  if q.persistent then s.mmcFindPersistentSized a timeout q.retryInterval
  else s.allocate (mmcServerNew (a.host.take a.hostLen) a.tcpPort a.udpPort false timeout q.retryInterval)

end Configuration

/-- Why `PS_OPEN` fails: no path is set, the warning `Failed to parse memcache.save_path (error at offset
    %d, url was '%s')`, a server that is refused, or a path without servers. -/
inductive OpenFailure
  | noPath
  | unparsable (offset : Nat) (path : Bytes)
  | refused
  | noServers
  deriving DecidableEq

/-- The pool under construction. -/
structure Opening (κ δ : Type) where
  pool : PoolConfig κ δ
  config : Configuration κ δ

/-- The body of the loop, for the URL from `i` to `j`. -/
def openUrl (path : Bytes) (i j : Nat) (o : Opening κ δ) : Except OpenFailure (Opening κ δ) :=
  match U.phpUrlParse (urlText path i j) with
  | none => .error (.unparsable i path)
  | some url =>
    let q := urlParams U url.query
    match urlAddress U url q with
    | none => .error .refused
    | some a =>
      let (m, config) := o.config.serverAt U a q
      .ok
        { pool := Configuration.mmcPoolAdd E o.pool m (config.server m).timeout (q.weight % 2 ^ 32).toNat
            (a.host.take a.hostLen) a.tcpPort
          config }

/-- `while (i<path_len && p(path[i])) i++`. -/
def scan (p : UInt8 → Bool) (path : Bytes) (i : Nat) : Nat := i + ((path.drop i).takeWhile p).length

/-- The loop over the path, which goes on by at least one byte each time: the failure, if there is one,
    and the pool at the end. -/
def openUrls (path : Bytes) : Nat → Nat → Opening κ δ → Option OpenFailure × Opening κ δ
  | 0, _, o => (none, o)
  | fuel + 1, i, o =>
    if i < path.length then
      let i := scan isSeparator path i
      let j := scan (fun c => !isSeparator c) path i
      if i < j then
        match openUrl E U path i j o with
        | .error failure => (some failure, o)
        | .ok o => openUrls path fuel (j + 1) o
      else openUrls path fuel (j + 1) o
    else (none, o)

/-! ## The handlers -/

/-- The data of the session module, the servers, and those that were freed. -/
structure SessionModule (κ δ : Type) where
  modData : Option (PoolConfig κ δ) := none
  config : Configuration κ δ := {}
  freed : List Mmc := []

/-- `mmc_pool_free`: servers that are not persistent are freed. -/
def mmcPoolFree (s : SessionModule κ δ) (pool : PoolConfig κ δ) : SessionModule κ δ :=
  { s with
    modData := none
    freed := s.freed ++ pool.servers.filter fun m => !(s.config.server m).persistent }

/-- `PS_OPEN`: the `save_path` of the settings of the extension goes before that of the session. -/
def psOpen (settingsPath savePath : Option Bytes) (s : SessionModule κ δ) :
    Option OpenFailure × SessionModule κ δ :=
  match settingsPath.or savePath with
  | none => (some .noPath, { s with modData := none })
  | some path =>
    let path := cString path
    let (failure, o) :=
      openUrls E U path path.length 0 { pool := Configuration.mmcPoolNew E, config := s.config }
    let s := { s with config := o.config }
    match failure with
    | some failure => (some failure, mmcPoolFree s o.pool)
    | none =>
      if o.pool.servers = [] then (some .noServers, mmcPoolFree s o.pool)
      else (none, { s with modData := some o.pool })

/-- `PS_CLOSE`. -/
def psClose (s : SessionModule κ δ) : SessionModule κ δ :=
  match s.modData with
  | none => s
  | some pool => mmcPoolFree s pool

/-! ## One URL -/

/-- The text of a URL, with `unix:` translated. -/
def wordText (word : Bytes) : Bytes :=
  if word.take 5 = bytes ['u', 'n', 'i', 'x', ':'] then bytes ['f', 'i', 'l', 'e', ':'] ++ word.drop 5
  else word

/-- The server that a URL stands for. -/
def wordServer (word : Bytes) : Option (UrlAddress × UrlParams δ) :=
  (U.phpUrlParse (wordText word)).bind fun url =>
    (urlAddress U url (urlParams U url.query)).map fun a => (a, urlParams U url.query)

/-- The pool with one more server. -/
def Opening.add (o : Opening κ δ) (x : UrlAddress × UrlParams δ) : Opening κ δ :=
  let (m, config) := o.config.serverAt U x.1 x.2
  { pool := Configuration.mmcPoolAdd E o.pool m (config.server m).timeout (x.2.weight % 2 ^ 32).toNat
      (x.1.host.take x.1.hostLen) x.1.tcpPort
    config }

section Url

variable {E U} {path word rest : Bytes} {i : Nat}

/-- The comparison with `unix:` does not see what follows the URL. -/
theorem take_scheme_iff (hword : rest = [] ∨ ∃ x ∈ rest.head?, isSeparator x = true) :
    (word ++ rest).take 5 = bytes ['u', 'n', 'i', 'x', ':'] ↔
      word.take 5 = bytes ['u', 'n', 'i', 'x', ':'] := by
  by_cases hlen : 5 ≤ word.length
  · rw [List.take_append_of_le_length hlen]
  · have hshort : word.take 5 ≠ bytes ['u', 'n', 'i', 'x', ':'] := by
      intro h
      have := congrArg List.length h
      simp [bytes] at this
      omega
    refine iff_of_false (fun h => ?_) hshort
    rcases hword with rfl | ⟨x, hx, hsep⟩
    · exact hshort (by simpa using h)
    · -- the separator would be one of the characters of the scheme
      have hmem : x ∈ (word ++ rest).take 5 := by
        obtain ⟨rest', rfl⟩ : ∃ rest', rest = x :: rest' := by
          match rest with
          | y :: rest' => exact ⟨rest', by simpa using hx⟩
        rw [List.take_append, show 5 - word.length = (4 - word.length) + 1 by omega, List.take_succ_cons]
        simp
      rw [h] at hmem
      have hscheme : ∀ y ∈ bytes ['u', 'n', 'i', 'x', ':'], isSeparator y = false := by decide +kernel
      exact absurd hsep (by simp [hscheme x hmem])

theorem urlText_word (hpath : path.drop i = word ++ rest)
    (hrest : rest = [] ∨ ∃ x ∈ rest.head?, isSeparator x = true) :
    urlText path i (i + word.length) = wordText word := by
  have htext : (path.drop i).take (i + word.length - i) = word := by
    rw [hpath, Nat.add_sub_cancel_left, List.take_left]
  unfold urlText wordText
  rw [htext, hpath]
  exact if_congr (take_scheme_iff hrest) rfl rfl

/-- What becomes of a URL is what it stands for. -/
theorem openUrl_word (hpath : path.drop i = word ++ rest)
    (hrest : rest = [] ∨ ∃ x ∈ rest.head?, isSeparator x = true) (o : Opening κ δ) :
    (∃ x, wordServer U word = some x ∧ openUrl E U path i (i + word.length) o = .ok (o.add E U x)) ∨
    wordServer U word = none ∧ ∃ failure, openUrl E U path i (i + word.length) o = .error failure := by
  unfold openUrl wordServer
  rw [urlText_word hpath hrest]
  rcases U.phpUrlParse (wordText word) with _ | url
  · exact Or.inr ⟨rfl, _, rfl⟩
  · rcases hurl : urlAddress U url (urlParams U url.query) with _ | a
    · exact Or.inr ⟨by simp [hurl], .refused, by simp only [hurl]⟩
    · exact Or.inl ⟨(a, urlParams U url.query), by simp [hurl], by simp only [hurl]; rfl⟩

end Url

/-! ## The loop -/

/-- What the loop has done: it added the servers of the first URLs, up to the end or to a URL that stands
    for no server. -/
structure Walked (words : List (Nat × Bytes)) (o : Opening κ δ) (r : Option OpenFailure × Opening κ δ)
    (servers : List (UrlAddress × UrlParams δ)) : Prop where
  opening : r.2 = servers.foldl (Opening.add E U) o
  all : r.1 = none → words.map (fun word => wordServer U word.2) = servers.map some
  refused : r.1 ≠ none →
    ∃ more, words.map (fun word => wordServer U word.2) = servers.map some ++ none :: more

section Loop

variable {E U} {path text gap word rest : Bytes} {i fuel : Nat} {words : List (Nat × Bytes)}
  {o : Opening κ δ}

theorem scan_of_drop {p : UInt8 → Bool} (hpath : path.drop i = word ++ rest)
    (hword : ∀ x ∈ word, p x = true) (hrest : ∀ x ∈ rest.head?, p x = false) :
    scan p path i = i + word.length := by
  rw [scan, hpath, takeWhile_append_of_all hword hrest]

theorem drop_of_append (hpath : path.drop i = word ++ rest) : path.drop (i + word.length) = rest := by
  rw [← List.drop_drop, hpath, List.drop_left]

theorem openUrls_end (hpath : path.length ≤ i) : openUrls E U path fuel i o = (none, o) := by
  match fuel with
  | 0 => rfl
  | fuel + 1 => rw [openUrls, if_neg (Nat.not_lt.mpr hpath)]

/-- Where only separators follow, the loop is over. -/
theorem openUrls_blank (hpath : path.drop i = gap) (hgap : ∀ x ∈ gap, isSeparator x = true) :
    openUrls E U path fuel i o = (none, o) := by
  match fuel with
  | 0 => rfl
  | fuel + 1 =>
    rw [openUrls]
    split
    · have hpath : path.drop i = gap ++ [] := by rw [hpath, List.append_nil]
      have hskip : scan isSeparator path i = i + gap.length := scan_of_drop hpath hgap (by simp)
      have hbehind : path.drop (i + gap.length) = [] ++ [] := drop_of_append hpath
      have hstop : scan (fun c => !isSeparator c) path (i + gap.length) = i + gap.length :=
        scan_of_drop hbehind (by simp) (by simp)
      have hlen : path.length - i = gap.length := by simpa using congrArg List.length hpath
      simp only [hskip, hstop, lt_irrefl, if_false]
      exact openUrls_end (by omega)
    · rfl

/-- The loop comes to the next URL. -/
theorem openUrls_word (fuel : Nat) (o : Opening κ δ) (hpath : path.drop i = gap ++ (word ++ rest))
    (hgap : ∀ x ∈ gap, isSeparator x = true) (hne : word ≠ []) (hword : ∀ x ∈ word, isSeparator x = false)
    (hrest : rest = [] ∨ ∃ x ∈ rest.head?, isSeparator x = true) :
    (∃ x, wordServer U word = some x ∧ openUrls E U path (fuel + 1) i o =
      openUrls E U path fuel (i + gap.length + word.length + 1) (o.add E U x)) ∨
    wordServer U word = none ∧ ∃ failure, openUrls E U path (fuel + 1) i o = (some failure, o) := by
  have hfirst : ∀ x ∈ (word ++ rest).head?, isSeparator x = false := by
    intro x hx
    rw [List.head?_append_of_ne_nil _ hne] at hx
    exact hword x (List.mem_of_mem_head? hx)
  have hbehind : ∀ x ∈ rest.head?, (!isSeparator x) = false := by
    intro x hx
    rcases hrest with rfl | ⟨y, hy, hsep⟩
    · simp at hx
    · rw [Option.mem_def] at hx hy
      rw [Option.some.inj (hx.symm.trans hy), hsep]
      rfl
  have hskip : scan isSeparator path i = i + gap.length := scan_of_drop hpath hgap hfirst
  have hdrop : path.drop (i + gap.length) = word ++ rest := drop_of_append hpath
  have hend : scan (fun c => !isSeparator c) path (i + gap.length) = i + gap.length + word.length :=
    scan_of_drop hdrop (by simpa using hword) hbehind
  have hpos : 0 < word.length := List.length_pos_iff.mpr hne
  have hinside : i < path.length := by
    have := congrArg List.length hpath
    simp only [List.length_drop, List.length_append] at this
    omega
  rw [openUrls, if_pos hinside]
  simp only [hskip, hend, if_pos (show i + gap.length < i + gap.length + word.length by omega)]
  rcases openUrl_word (E := E) hdrop hrest o with ⟨x, hx, hopen⟩ | ⟨hnone, failure, hopen⟩
  · exact Or.inl ⟨x, hx, by rw [hopen]⟩
  · exact Or.inr ⟨hnone, failure, by rw [hopen]⟩

theorem Walked.cons {x : UrlAddress × UrlParams δ} {r : Option OpenFailure × Opening κ δ}
    {servers : List (UrlAddress × UrlParams δ)} (hx : wordServer U word = some x)
    (h : Walked E U words (o.add E U x) r servers) : Walked E U ((i, word) :: words) o r (x :: servers) where
  opening := h.opening
  all hnone := by rw [List.map_cons, List.map_cons, hx, h.all hnone]
  refused hsome := by
    obtain ⟨more, hmore⟩ := h.refused hsome
    exact ⟨more, by rw [List.map_cons, List.map_cons, List.cons_append, hx, hmore]⟩

theorem walked_refused (hnone : wordServer U word = none) (failure : OpenFailure) :
    Walked E U ((i, word) :: words) o (some failure, o) [] where
  opening := rfl
  all h := by cases h
  refused _ := ⟨_, by rw [List.map_cons, hnone]; rfl⟩

/-- **The loop** goes through the URLs of the path in order. -/
theorem openUrls_walked (hlayout : Layout isSeparator i text words) (hpath : path.drop i = text)
    (hfuel : text.length ≤ fuel) (o : Opening κ δ) :
    ∃ servers, Walked E U words o (openUrls E U path fuel i o) servers := by
  induction hlayout generalizing fuel o with
  | blank hgap =>
    rw [openUrls_blank hpath hgap]
    exact ⟨[], rfl, fun _ => rfl, fun h => absurd rfl h⟩
  | @last i gap word hgap hne hword =>
    have hpos : 0 < word.length := List.length_pos_iff.mpr hne
    obtain ⟨fuel, rfl⟩ : ∃ n, fuel = n + 1 := ⟨fuel - 1, by rw [List.length_append] at hfuel; omega⟩
    have hpath : path.drop i = gap ++ (word ++ []) := by rw [hpath, List.append_nil]
    rcases openUrls_word (E := E) fuel o hpath hgap hne hword (.inl rfl) with
      ⟨x, hx, hopen⟩ | ⟨hnone, failure, hopen⟩
    · have hlen : path.length - i = gap.length + word.length := by simpa using congrArg List.length hpath
      rw [hopen, openUrls_end (by omega)]
      exact ⟨[x], .cons hx ⟨rfl, fun _ => rfl, fun h => absurd rfl h⟩⟩
    · rw [hopen]
      exact ⟨[], walked_refused hnone failure⟩
  | @word i gap word rest z words hgap hne hword hz hrest ih =>
    obtain ⟨fuel, rfl⟩ : ∃ n, fuel = n + 1 :=
      ⟨fuel - 1, by simp only [List.length_append, List.length_cons] at hfuel; omega⟩
    have hpath : path.drop i = gap ++ (word ++ z :: rest) := by rw [hpath, List.append_assoc]
    rcases openUrls_word (E := E) fuel o hpath hgap hne hword (.inr ⟨z, rfl, hz⟩) with
      ⟨x, hx, hopen⟩ | ⟨hnone, failure, hopen⟩
    · have hnext : path.drop (i + gap.length + word.length + 1) = rest := by
        rw [← List.drop_drop, drop_of_append (drop_of_append hpath)]
        rfl
      have hshort : rest.length ≤ fuel := by
        simp only [List.length_append, List.length_cons] at hfuel
        omega
      obtain ⟨servers, hservers⟩ := ih hnext hshort (o.add E U x)
      exact ⟨x :: servers, hopen ▸ hservers.cons hx⟩
    · rw [hopen]
      exact ⟨[], walked_refused hnone failure⟩

end Loop

/-! ## The servers -/

/-- The key of a persistent server. -/
def UrlAddress.key (a : UrlAddress) : Bytes := Configuration.persistentKey a.host a.tcpPort a.udpPort

namespace Configuration

/-- The persistent list refers to persistent servers, each under one key. -/
structure WellKept (s : Configuration κ δ) : Prop where
  allocated : ∀ key m, s.persistentList key = some m → m < s.next ∧ (s.server m).persistent = true
  unique : ∀ key key' m, s.persistentList key = some m → s.persistentList key' = some m → key = key'

/-- Other servers stay as they are and in the list; a server keeps its kind. -/
structure Keeps (s s' : Configuration κ δ) (m : Mmc) : Prop where
  object : s'.object = s.object
  others : ∀ m', m' ≠ m → s'.server m' = s.server m'
  next : s.next ≤ s'.next
  kind : ∀ m' < s.next, (s'.server m').persistent = (s.server m').persistent
  listed : ∀ key m', s.persistentList key = some m' → s'.persistentList key = some m'

/-- A URL has a server: the persistent one with its key, with its timeout and interval, or one of its
    own. -/
structure Gives (s s' : Configuration κ δ) (x : UrlAddress × UrlParams δ) (m : Mmc) : Prop
    extends Keeps s s' m where
  wellKept : s'.WellKept
  timeout : (s'.server m).timeout = U.doubleToTimeval x.2.timeout
  retryInterval : (s'.server m).retryInterval = x.2.retryInterval
  kindOf : (s'.server m).persistent = x.2.persistent
  shared : x.2.persistent = true → s'.persistentList x.1.key = some m
  fresh : (s'.next = s.next + 1 ∧ m = s.next ∧ s'.server m = mmcServerNew (x.1.host.take x.1.hostLen)
    x.1.tcpPort x.1.udpPort x.2.persistent (U.doubleToTimeval x.2.timeout) x.2.retryInterval) ∨
      s'.next = s.next ∧ m < s.next ∧ x.2.persistent = true

variable {U} {s : Configuration κ δ} {x : UrlAddress × UrlParams δ}

/-- The server of a new record. -/
theorem keeps_allocate (record : ServerConfig) {s' : Configuration κ δ} (hobject : s'.object = s.object)
    (hserver : s'.server = Function.update s.server s.next record) (hnext : s'.next = s.next + 1)
    (hlisted : ∀ key m', s.persistentList key = some m' → s'.persistentList key = some m') :
    Keeps s s' s.next where
  object := hobject
  others m' hm' := by rw [hserver, Function.update_of_ne hm']
  next := by rw [hnext]; exact Nat.le_succ _
  kind m' hm' := by rw [hserver, Function.update_of_ne (Nat.ne_of_lt hm')]
  listed := hlisted

theorem WellKept.kind_of_keeps {s' : Configuration κ δ} {m : Mmc} (hs : s.WellKept) (hkeeps : Keeps s s' m)
    (hlist : s'.persistentList = s.persistentList) : s'.WellKept where
  allocated key m' h := by
    obtain ⟨hlt, hkind⟩ := hs.allocated key m' (hlist ▸ h)
    exact ⟨Nat.lt_of_lt_of_le hlt hkeeps.next, (hkeeps.kind m' hlt).trans hkind⟩
  unique key key' m' h h' := hs.unique key key' m' (hlist ▸ h) (hlist ▸ h')

theorem gives_own (hs : s.WellKept) (hkind : x.2.persistent = false) :
    Gives U s (s.serverAt U x.1 x.2).2 x (s.serverAt U x.1 x.2).1 := by
  have hat : s.serverAt U x.1 x.2 = s.allocate (mmcServerNew (x.1.host.take x.1.hostLen) x.1.tcpPort
      x.1.udpPort false (U.doubleToTimeval x.2.timeout) x.2.retryInterval) := by simp [serverAt, hkind]
  have hself : (s.serverAt U x.1 x.2).2.server s.next = mmcServerNew (x.1.host.take x.1.hostLen) x.1.tcpPort
      x.1.udpPort false (U.doubleToTimeval x.2.timeout) x.2.retryInterval := by
    rw [hat]
    exact Function.update_self ..
  have hkeeps : Keeps s (s.serverAt U x.1 x.2).2 s.next := by
    rw [hat]
    exact keeps_allocate _ rfl rfl rfl fun _ _ h => h
  have hfirst : (s.serverAt U x.1 x.2).1 = s.next := by rw [hat]; rfl
  rw [hfirst]
  exact {
    hkeeps with
    wellKept := hs.kind_of_keeps hkeeps (by rw [hat]; rfl)
    timeout := by rw [hself]; rfl
    retryInterval := by rw [hself]; rfl
    kindOf := by rw [hself, hkind]; rfl
    shared := fun h => by simp [hkind] at h
    fresh := .inl ⟨by rw [hat]; rfl, rfl, by rw [hself, hkind]⟩ }

/-- A persistent server that is new is put into the list. -/
theorem gives_registered (hs : s.WellKept) (hkind : x.2.persistent = true)
    (hnone : s.persistentList x.1.key = none) :
    Gives U s (s.serverAt U x.1 x.2).2 x (s.serverAt U x.1 x.2).1 := by
  set record := mmcServerNew (x.1.host.take x.1.hostLen) x.1.tcpPort x.1.udpPort true
    (U.doubleToTimeval x.2.timeout) x.2.retryInterval
  have hat : s.serverAt U x.1 x.2 = (s.next, { (s.allocate record).2 with
      persistentList := Function.update s.persistentList x.1.key (some s.next) }) := by
    unfold serverAt mmcFindPersistentSized
    simp only [hkind, if_true]
    rw [show s.persistentList (persistentKey x.1.host x.1.tcpPort x.1.udpPort) = none from hnone]
    rfl
  have hself : (s.serverAt U x.1 x.2).2.server s.next = record := by
    rw [hat]
    exact Function.update_self ..
  have hlist : (s.serverAt U x.1 x.2).2.persistentList =
      Function.update s.persistentList x.1.key (some s.next) := by rw [hat]
  have hkeeps : Keeps s (s.serverAt U x.1 x.2).2 s.next := by
    rw [hat]
    refine keeps_allocate record rfl rfl rfl fun key m' h => ?_
    have hne : key ≠ x.1.key := fun heq => by simp [heq, hnone] at h
    exact (Function.update_of_ne hne ..).trans h
  have hnew {key : Bytes} {m' : Mmc} (h : (s.serverAt U x.1 x.2).2.persistentList key = some m') :
      key = x.1.key ∧ m' = s.next ∨ s.persistentList key = some m' := by
    rw [hlist] at h
    by_cases hkey : key = x.1.key
    · rw [hkey, Function.update_self] at h
      exact Or.inl ⟨hkey, (Option.some.inj h).symm⟩
    · rw [Function.update_of_ne hkey] at h
      exact Or.inr h
  have hnext : (s.serverAt U x.1 x.2).2.next = s.next + 1 := by rw [hat]; rfl
  have hfirst : (s.serverAt U x.1 x.2).1 = s.next := by rw [hat]
  rw [hfirst]
  exact {
    hkeeps with
    wellKept := {
      allocated := fun key m' h => by
        rcases hnew h with ⟨-, rfl⟩ | h
        · exact ⟨by rw [hnext]; exact Nat.lt_succ_self _, by rw [hself]; rfl⟩
        · obtain ⟨hlt, hkind'⟩ := hs.allocated key m' h
          exact ⟨by rw [hnext]; exact Nat.lt_succ_of_lt hlt, (hkeeps.kind m' hlt).trans hkind'⟩
      unique := fun key key' m' h h' => by
        rcases hnew h with ⟨rfl, rfl⟩ | h <;> rcases hnew h' with ⟨rfl, heq⟩ | h'
        · rfl
        · exact absurd (hs.allocated key' _ h').1 (lt_irrefl _)
        · exact absurd (hs.allocated key _ h).1 (heq ▸ lt_irrefl _)
        · exact hs.unique key key' m' h h' }
    timeout := by rw [hself]; rfl
    retryInterval := by rw [hself]; rfl
    kindOf := by rw [hself, hkind]; rfl
    shared := fun _ => by rw [hlist, Function.update_self]
    fresh := .inl ⟨hnext, rfl, by rw [hself, hkind]⟩ }

/-- A persistent server that is in the list is used again. -/
theorem gives_shared (hs : s.WellKept) (hkind : x.2.persistent = true) {m : Mmc}
    (hsome : s.persistentList x.1.key = some m) :
    Gives U s (s.serverAt U x.1 x.2).2 x (s.serverAt U x.1 x.2).1 := by
  set record : ServerConfig := { s.server m with
    timeout := U.doubleToTimeval x.2.timeout
    retryInterval := x.2.retryInterval
    tcpStatus := recheck (s.server m).tcpStatus
    udpStatus := recheck (s.server m).udpStatus }
  have hat : s.serverAt U x.1 x.2 = (m, { s with server := Function.update s.server m record }) := by
    unfold serverAt mmcFindPersistentSized
    simp only [hkind, if_true]
    rw [show s.persistentList (persistentKey x.1.host x.1.tcpPort x.1.udpPort) = some m from hsome]
  obtain ⟨hlt, hpersistent⟩ := hs.allocated _ _ hsome
  have hself : (s.serverAt U x.1 x.2).2.server m = record := by
    rw [hat]
    exact Function.update_self ..
  have hkeeps : Keeps s (s.serverAt U x.1 x.2).2 m := by
    rw [hat]
    refine ⟨rfl, fun m' hm' => Function.update_of_ne hm' .., le_refl _, fun m' _ => ?_, fun _ _ h => h⟩
    by_cases hm' : m' = m
    · subst hm'
      have hupdate : Function.update s.server m' record m' = record := Function.update_self ..
      exact (congrArg ServerConfig.persistent hupdate).trans rfl
    · exact congrArg ServerConfig.persistent (Function.update_of_ne hm' ..)
  have hfirst : (s.serverAt U x.1 x.2).1 = m := by rw [hat]
  rw [hfirst]
  exact {
    hkeeps with
    wellKept := hs.kind_of_keeps hkeeps (by rw [hat])
    timeout := by rw [hself]
    retryInterval := by rw [hself]
    kindOf := by rw [hself, hkind]; exact hpersistent
    shared := fun _ => by rw [hat]; exact hsome
    fresh := .inr ⟨by rw [hat], hlt, hkind⟩ }

/-- **The server of a URL** is its own or a persistent one. -/
theorem serverAt_gives (hs : s.WellKept) (x : UrlAddress × UrlParams δ) :
    Gives U s (s.serverAt U x.1 x.2).2 x (s.serverAt U x.1 x.2).1 := by
  match hkind : x.2.persistent with
  | false => exact gives_own hs hkind
  | true =>
    match hkey : s.persistentList x.1.key with
    | none => exact gives_registered hs hkind hkey
    | some m => exact gives_shared hs hkind hkey

end Configuration

/-! ## The pool -/

section Pool

/-- The server `m` serves a URL. -/
structure ServesUrl (s : Configuration κ δ) (x : UrlAddress × UrlParams δ) (m : Mmc) : Prop where
  allocated : m < s.next
  kind : (s.server m).persistent = x.2.persistent
  shared : x.2.persistent = true → s.persistentList x.1.key = some m
  own : x.2.persistent = false → s.server m = Configuration.mmcServerNew (x.1.host.take x.1.hostLen)
    x.1.tcpPort x.1.udpPort false (U.doubleToTimeval x.2.timeout) x.2.retryInterval

/-- The servers of a list that are not persistent. -/
def ownServers (s : Configuration κ δ) (servers : List Mmc) : List Mmc :=
  servers.filter fun m => !(s.server m).persistent

/-- The server of a persistent URL has the timeout of the last URL with its key. -/
def LatestTimeout (s : Configuration κ δ) (servers : List (UrlAddress × UrlParams δ)) : Prop :=
  ∀ before x after m, servers = before ++ x :: after → x.2.persistent = true →
    (∀ y ∈ after, y.2.persistent = true → y.1.key ≠ x.1.key) → s.persistentList x.1.key = some m →
      (s.server m).timeout = U.doubleToTimeval x.2.timeout ∧
        (s.server m).retryInterval = x.2.retryInterval

/-- A pool of the servers of some URLs was made, from a configuration `s` on. -/
structure Opened (s : Configuration κ δ) (servers : List (UrlAddress × UrlParams δ))
    (o : Opening κ δ) : Prop where
  wellKept : o.config.WellKept
  object : o.config.object = s.object
  next : s.next ≤ o.config.next
  kind : ∀ m < s.next, (o.config.server m).persistent = (s.server m).persistent
  listed : ∀ key m, s.persistentList key = some m → o.config.persistentList key = some m
  members : List.Forall₂ (ServesUrl U o.config) servers o.pool.servers
  weights : o.pool.hashState = o.pool.servers.zip (servers.map fun x => (x.2.weight % 2 ^ 32).toNat)
  own : ∀ m, m ∈ ownServers o.config o.pool.servers ↔
    s.next ≤ m ∧ m < o.config.next ∧ (o.config.server m).persistent = false
  ownNodup : (ownServers o.config o.pool.servers).Nodup
  registered : ∀ m, s.next ≤ m → m < o.config.next → (o.config.server m).persistent = true →
    ∃ key, o.config.persistentList key = some m
  latest : LatestTimeout U o.config servers

variable {E U} {s s' : Configuration κ δ} {x y : UrlAddress × UrlParams δ} {m m' : Mmc}
  {servers : List (UrlAddress × UrlParams δ)} {o : Opening κ δ}

/-- A server that is not persistent stays as it is. -/
theorem Configuration.Gives.own_eq (h : Gives U s s' x m) (hm' : m' < s.next)
    (hkind : (s.server m').persistent = false) : s'.server m' = s.server m' := by
  refine h.others m' fun heq => ?_
  subst heq
  rcases h.fresh with ⟨-, rfl, -⟩ | ⟨-, -, hpersistent⟩
  · exact lt_irrefl _ hm'
  · have := h.kind m' hm'
    rw [h.kindOf, hkind, hpersistent] at this
    cases this

theorem ServesUrl.keeps (hy : ServesUrl U s y m') (h : Configuration.Gives U s s' x m) :
    ServesUrl U s' y m' where
  allocated := Nat.lt_of_lt_of_le hy.allocated h.next
  kind := (h.kind m' hy.allocated).trans hy.kind
  shared hshared := h.listed _ _ (hy.shared hshared)
  own hown := (h.own_eq hy.allocated (hy.kind.trans hown)).trans (hy.own hown)

theorem Configuration.Gives.allocated (h : Gives U s s' x m) : m < s'.next := by
  rcases h.fresh with ⟨hnext, rfl, -⟩ | ⟨hnext, hlt, -⟩
  · exact hnext ▸ Nat.lt_succ_self _
  · exact hnext ▸ hlt

theorem Configuration.Gives.serves (h : Gives U s s' x m) : ServesUrl U s' x m where
  allocated := h.allocated
  kind := h.kindOf
  shared := h.shared
  own hown := by
    rcases h.fresh with ⟨-, -, hserver⟩ | ⟨-, -, hpersistent⟩
    · rw [hserver, hown]
    · rw [hown] at hpersistent
      cases hpersistent

/-- Servers that were there before are of the same kind. -/
theorem Configuration.Gives.ownServers_eq (h : Gives U s s' x m) {members : List Mmc}
    (hmembers : ∀ m' ∈ members, m' < s.next) : ownServers s' members = ownServers s members :=
  List.filter_congr fun m' hm' => by rw [h.kind m' (hmembers m' hm')]

theorem LatestTimeout.add (hlatest : LatestTimeout U s servers)
    (hmembers : ∀ y ∈ servers, ∃ m', ServesUrl U s y m') (h : Configuration.Gives U s s' x m) :
    LatestTimeout U s' (servers ++ [x]) := by
  intro before y after m' hsplit hy hafter hlist
  rcases List.eq_nil_or_concat after with rfl | ⟨after, z, rfl⟩
  · -- the URL is the last one
    have hlast : y = x := by simpa using (congrArg List.getLast? hsplit).symm
    subst hlast
    rw [Option.some.inj (hlist.symm.trans (h.shared hy))]
    exact ⟨h.timeout, h.retryInterval⟩
  · -- the URL was there before, and the new one has another server
    rw [List.concat_eq_append] at hsplit hafter
    have hsplit' : servers ++ [x] = (before ++ y :: after) ++ [z] := by simpa using hsplit
    obtain ⟨hservers, hz⟩ := List.append_inj' hsplit' rfl
    have hz : x = z := by simpa using hz
    subst hz
    obtain ⟨m₀, hm₀⟩ := hmembers y (hservers ▸ by simp)
    have hold := hm₀.shared hy
    obtain rfl : m₀ = m' := Option.some.inj ((h.listed _ _ hold).symm.trans hlist)
    have hne : m₀ ≠ m := by
      rintro rfl
      have hx : x.2.persistent = true := by rw [← h.kindOf, h.kind _ hm₀.allocated, hm₀.kind, hy]
      exact hafter x (by simp) hx (h.wellKept.unique _ _ _ (h.shared hx) hlist)
    rw [h.others m₀ hne]
    exact hlatest before y after m₀ hservers hy (fun w hw => hafter w (by simp [hw])) hold

/-- Every server of the pool serves a URL. -/
theorem exists_served {members : List Mmc} (h : List.Forall₂ (ServesUrl U s) servers members)
    (hm : m ∈ members) : ∃ y, ServesUrl U s y m := by
  obtain ⟨i, hi, rfl⟩ := List.getElem_of_mem hm
  exact ⟨_, h.get (h.length_eq ▸ hi) hi⟩

/-- Every URL is served. -/
theorem exists_server {members : List Mmc} (h : List.Forall₂ (ServesUrl U s) servers members)
    (hy : y ∈ servers) : ∃ m, ServesUrl U s y m := by
  obtain ⟨i, hi, rfl⟩ := List.getElem_of_mem hy
  exact ⟨_, h.get hi (h.length_eq ▸ hi)⟩

/-- **One more server** keeps the accounts. -/
theorem Opened.add (h : Opened U s servers o) (x : UrlAddress × UrlParams δ) :
    Opened U s (servers ++ [x]) (o.add E U x) := by
  have hgives := Configuration.serverAt_gives (U := U) h.wellKept x
  set m := (o.config.serverAt U x.1 x.2).1
  set config := (o.config.serverAt U x.1 x.2).2
  have hconfig : (o.add E U x).config = config := rfl
  have hservers : (o.add E U x).pool.servers = o.pool.servers ++ [m] := rfl
  have hold : ∀ m' ∈ o.pool.servers, m' < o.config.next := fun m' hm' => by
    obtain ⟨y, hy⟩ := exists_served h.members hm'
    exact hy.allocated
  have hown : ownServers config (o.pool.servers ++ [m]) =
      ownServers o.config o.pool.servers ++ ownServers config [m] := by
    rw [ownServers, List.filter_append]
    exact congrArg (· ++ _) (hgives.ownServers_eq hold)
  have hownLast : ownServers config [m] = if x.2.persistent then [] else [m] := by
    unfold ownServers
    rw [List.filter_singleton, hgives.kindOf]
    rcases x.2.persistent with _ | _ <;> rfl
  have hnew {m' : Mmc} (hm' : m' < config.next) : m' < o.config.next ∨ m' = m := by
    rcases hgives.fresh with ⟨hnext, hm, -⟩ | ⟨hnext, -, -⟩
    · rw [hnext] at hm'
      exact (Nat.lt_succ_iff_lt_or_eq.mp hm').imp_right fun h => h.trans hm.symm
    · exact Or.inl (hnext ▸ hm')
  have hfresh (hx : x.2.persistent = false) : m = o.config.next := by
    rcases hgives.fresh with ⟨-, hm, -⟩ | ⟨-, -, hpersistent⟩
    · exact hm
    · rw [hx] at hpersistent
      cases hpersistent
  exact {
    wellKept := hgives.wellKept
    object := hgives.object.trans h.object
    next := h.next.trans hgives.next
    kind := fun m' hm' => (hgives.kind m' (Nat.lt_of_lt_of_le hm' h.next)).trans (h.kind m' hm')
    listed := fun key m' hlist => hgives.listed _ _ (h.listed _ _ hlist)
    members := by
      rw [hservers]
      exact List.rel_append (h.members.imp fun y m' hy => hy.keeps hgives) (.cons hgives.serves .nil)
    weights := by
      rw [hservers, List.map_append, List.zip_append (by simpa using h.members.length_eq.symm),
        ← h.weights]
      rfl
    own := fun m' => by
      rw [hservers, hconfig, hown, List.mem_append, h.own, hownLast]
      constructor
      · rintro (⟨hle, hlt, hkind⟩ | hm')
        · exact ⟨hle, Nat.lt_of_lt_of_le hlt hgives.next, (hgives.kind m' hlt).trans hkind⟩
        · obtain ⟨hx, rfl⟩ : x.2.persistent = false ∧ m' = m := by simpa using hm'
          exact ⟨(hfresh hx).symm ▸ h.next, hgives.allocated, hgives.kindOf.trans hx⟩
      · rintro ⟨hle, hlt, hkind⟩
        rcases hnew hlt with hlt | rfl
        · exact Or.inl ⟨hle, hlt, (hgives.kind m' hlt).symm.trans hkind⟩
        · exact Or.inr (by simpa using hgives.kindOf.symm.trans hkind)
    ownNodup := by
      rw [hservers, hconfig, hown]
      refine h.ownNodup.append ((List.nodup_singleton m).filter _) fun m' hm' hlast => ?_
      have hx : x.2.persistent = false ∧ m' = m := by simpa [hownLast] using hlast
      exact absurd ((h.own m').mp hm').2.1 (by rw [hx.2, hfresh hx.1]; exact lt_irrefl _)
    registered := fun m' hle hlt hkind => by
      rcases hnew hlt with hlt | rfl
      · obtain ⟨key, hkey⟩ := h.registered m' hle hlt ((hgives.kind m' hlt).symm.trans hkind)
        exact ⟨key, hgives.listed _ _ hkey⟩
      · exact ⟨x.1.key, hgives.shared (hgives.kindOf.symm.trans hkind)⟩
    latest := h.latest.add (fun y hy => exists_server h.members hy) hgives }

end Pool

/-! ## Sessions -/

section Sessions

/-- What holds while no session is open: every server that was made is persistent and in the list, or was
    freed, once. -/
structure SessionModule.Accounted (s : SessionModule κ δ) : Prop where
  wellKept : s.config.WellKept
  freed : ∀ m, m ∈ s.freed ↔ m < s.config.next ∧ (s.config.server m).persistent = false
  freedNodup : s.freed.Nodup
  registered : ∀ m < s.config.next, (s.config.server m).persistent = true →
    ∃ key, s.config.persistentList key = some m

/-- What `PS_OPEN` makes of a path with some URLs. -/
structure OpensUrls (urls : List (Nat × Bytes)) (s : SessionModule κ δ)
    (r : Option OpenFailure × SessionModule κ δ) : Prop where
  succeeds : r.1 = none ↔ urls ≠ [] ∧ ∀ url ∈ urls, (wordServer U url.2).isSome = true
  pool : r.1 = none → ∃ servers pool, urls.map (fun url => wordServer U url.2) = servers.map some ∧
    r.2.modData = some pool ∧ Opened U s.config servers { pool, config := r.2.config } ∧
      r.2.freed = s.freed
  failure : r.1 ≠ none → r.2.modData = none
  closed : (psClose r.2).Accounted ∧ (psClose r.2).modData = none

/-- Sessions that are opened with some paths and closed again, one after the other. -/
def runSessions : List (Option Bytes × Option Bytes) → SessionModule κ δ → SessionModule κ δ
  | [], s => s
  | (settingsPath, savePath) :: rest, s =>
    runSessions rest (psClose (psOpen E U settingsPath savePath s).2)

variable {E U} {s : SessionModule κ δ} {servers : List (UrlAddress × UrlParams δ)} {o : Opening κ δ}

/-- The pool with no server in it. -/
theorem opened_new {config : Configuration κ δ} (h : config.WellKept) :
    Opened U config [] { pool := Configuration.mmcPoolNew E, config } where
  wellKept := h
  object := rfl
  next := le_refl _
  kind _ _ := rfl
  listed _ _ h := h
  members := .nil
  weights := rfl
  own m := by
    refine iff_of_false (by simp [ownServers, Configuration.mmcPoolNew]) fun hm => ?_
    exact absurd hm.1 (Nat.not_le.mpr hm.2.1)
  ownNodup := List.nodup_nil
  registered m hle hlt := absurd hle (Nat.not_le.mpr hlt)
  latest before x after m h := by simp at h

theorem opened_foldl {config : Configuration κ δ} (h : config.WellKept)
    (servers : List (UrlAddress × UrlParams δ)) :
    Opened U config servers
      (servers.foldl (Opening.add E U) { pool := Configuration.mmcPoolNew E, config }) := by
  induction servers using List.reverseRecOn with
  | nil => exact opened_new h
  | append_singleton servers x ih =>
    rw [List.foldl_append]
    exact ih.add x

/-- **The end of a pool**: its servers are freed, or they are persistent. -/
theorem Opened.free (h : Opened U s.config servers o) (hs : s.Accounted) :
    (mmcPoolFree { s with config := o.config } o.pool).Accounted where
  wellKept := h.wellKept
  freed m := by
    change m ∈ s.freed ++ ownServers o.config o.pool.servers ↔ _
    rw [List.mem_append, hs.freed, h.own]
    constructor
    · rintro (⟨hlt, hkind⟩ | ⟨-, hm⟩)
      · exact ⟨Nat.lt_of_lt_of_le hlt h.next, (h.kind m hlt).trans hkind⟩
      · exact hm
    · rintro ⟨hlt, hkind⟩
      rcases Nat.lt_or_ge m s.config.next with hold | hnew
      · exact Or.inl ⟨hold, (h.kind m hold).symm.trans hkind⟩
      · exact Or.inr ⟨hnew, hlt, hkind⟩
  freedNodup := by
    change (s.freed ++ ownServers o.config o.pool.servers).Nodup
    refine hs.freedNodup.append h.ownNodup fun m hm hown => ?_
    exact absurd ((hs.freed m).mp hm).1 (Nat.not_lt.mpr ((h.own m).mp hown).1)
  registered m hlt hkind := by
    rcases Nat.lt_or_ge m s.config.next with hold | hnew
    · obtain ⟨key, hkey⟩ := hs.registered m hold ((h.kind m hold).symm.trans hkind)
      exact ⟨key, h.listed _ _ hkey⟩
    · exact h.registered m hnew hlt hkind

/-- A walk that came to an end, with a pool. -/
theorem Walked.isSome_of_all {urls : List (Nat × Bytes)} {r : Option OpenFailure × Opening κ δ}
    (h : Walked E U urls o r servers) (hnone : r.1 = none) :
    urls.length = servers.length ∧ ∀ url ∈ urls, (wordServer U url.2).isSome = true := by
  have hall := h.all hnone
  constructor
  · simpa using congrArg List.length hall
  · intro url hurl
    have hmem : wordServer U url.2 ∈ servers.map some := hall ▸ List.mem_map_of_mem hurl
    obtain ⟨x, -, hx⟩ := List.mem_map.mp hmem
    rw [← hx]
    rfl

/-- A walk that ended at a URL which stands for no server. -/
theorem Walked.exists_none {urls : List (Nat × Bytes)} {r : Option OpenFailure × Opening κ δ}
    (h : Walked E U urls o r servers) (hsome : r.1 ≠ none) :
    ∃ url ∈ urls, wordServer U url.2 = none := by
  obtain ⟨more, hmore⟩ := h.refused hsome
  have hmem : none ∈ urls.map fun word => wordServer U word.2 := by simp [hmore]
  exact List.mem_map.mp hmem

/-- A path is opened. -/
theorem psOpen_opensUrls (hs : s.Accounted) (settingsPath : Option Bytes) (path : Bytes) :
    ∃ urls, Layout isSeparator 0 (cString (settingsPath.getD path)) urls ∧
      OpensUrls U urls s (psOpen E U settingsPath (some path) s) := by
  obtain ⟨urls, hlayout⟩ := exists_layout isSeparator 0 (cString (settingsPath.getD path))
  have hpath : settingsPath.or (some path) = some (settingsPath.getD path) := by
    rcases settingsPath with _ | _ <;> rfl
  unfold psOpen
  rw [hpath]
  dsimp only
  generalize cString (settingsPath.getD path) = text at hlayout ⊢
  refine ⟨urls, hlayout, ?_⟩
  have hwalked := openUrls_walked (E := E) (U := U) hlayout List.drop_zero (le_refl _)
    { pool := Configuration.mmcPoolNew E, config := s.config }
  generalize openUrls E U text text.length 0 { pool := Configuration.mmcPoolNew E, config := s.config } = r
    at hwalked ⊢
  obtain ⟨servers, hwalk⟩ := hwalked
  have hopened : Opened U s.config servers r.2 := hwalk.opening ▸ opened_foldl hs.wellKept servers
  have hfree := hopened.free hs
  have hlength : r.2.pool.servers.length = servers.length := hopened.members.length_eq.symm
  match hfailure : r.1 with
  | some failure =>
    obtain ⟨url, hurl, hnone⟩ := hwalk.exists_none (by simp [hfailure])
    refine ⟨iff_of_false (by simp) fun h => ?_, fun h => (by cases h), fun _ => rfl, hfree, rfl⟩
    exact absurd (h.2 url hurl) (by simp [hnone])
  | none =>
    obtain ⟨hcount, hsome⟩ := hwalk.isSome_of_all hfailure
    by_cases hempty : r.2.pool.servers = []
    · have hurls : urls = [] := List.length_eq_zero_iff.mp (by rw [hcount, ← hlength, hempty]; rfl)
      simp only [hempty, if_true]
      exact ⟨iff_of_false (by simp) fun h => h.1 hurls, fun h => (by cases h), fun _ => rfl, hfree, rfl⟩
    · have hurls : urls ≠ [] := by
        rintro rfl
        exact hempty (List.length_eq_zero_iff.mp (hlength.trans hcount.symm))
      simp only [hempty, if_false]
      exact ⟨iff_of_true rfl ⟨hurls, hsome⟩,
        fun _ => ⟨servers, r.2.pool, hwalk.all hfailure, rfl, hopened, rfl⟩,
        fun h => absurd rfl h, hfree, rfl⟩

/-- Without a path nothing is opened. -/
theorem psOpen_noPath (hs : s.Accounted) : (psClose (psOpen E U none none s).2).Accounted :=
  ⟨hs.wellKept, hs.freed, hs.freedNodup, hs.registered⟩

theorem accounted_start : ({} : SessionModule κ δ).Accounted where
  wellKept := ⟨fun _ _ h => (by cases h), fun _ _ _ h => (by cases h)⟩
  freed m := iff_of_false List.not_mem_nil fun h => Nat.not_lt_zero m h.1
  freedNodup := List.nodup_nil
  registered m hm := absurd hm (Nat.not_lt_zero m)

/-- Sessions leave nothing behind but the persistent servers. -/
theorem accounted_runSessions (sessions : List (Option Bytes × Option Bytes)) (hs : s.Accounted) :
    (runSessions E U sessions s).Accounted := by
  induction sessions generalizing s with
  | nil => exact hs
  | cons session rest ih =>
    obtain ⟨settingsPath, savePath⟩ := session
    apply ih
    match settingsPath, savePath with
    | none, none => exact psOpen_noPath hs
    | settingsPath, some path =>
      obtain ⟨_, -, h⟩ := psOpen_opensUrls (E := E) (U := U) hs settingsPath path
      exact h.closed.1
    | some path, none =>
      obtain ⟨_, -, h⟩ := psOpen_opensUrls (E := E) (U := U) hs (some path) path
      exact h.closed.1

end Sessions

/-- A reading of URLs in which a text is a host and every parameter is 1. -/
def sampleUrls : UrlEnv Int Nat where
  phpUrlParse text := some { host := some text, port := 11211, query := some [] }
  treatData _ _ := some 1
  toBoolean n := n ≠ 0
  toLong n := n
  toDouble := Int.toNat
  defaultTimeout := 1
  notPositive n := n = 0
  doubleToTimeval n := 1000000 * n

/-- The settings that go with it. -/
def sampleSettings : ConfigEnv Unit Nat where
  protocol := .ascii
  compressThreshold := 20000
  defaultSavings := 20
  outOfRange _ := false
  callable _ := false
  timevalToDouble t := t

/-- `" a,b a"`. -/
def twicePath : Bytes := bytes [' ', 'a', ',', 'b', ' ', 'a']

end PeclMemcache
