import PeclMemcache.ResultKeys

set_option autoImplicit false

/-! # Increments and their copies

With redundancy the request for a key goes to the server of the key, and copies of it to further
servers. All answers are entered into one array: a number under the key, a refusal under the first
`key_len + 1` bytes of `request->key`. The byte behind the key is a NUL in the request; in a copy it is
what the recycled buffer had there. -/

namespace PeclMemcache

open Writes

/-- Every element on the left has a partner. -/
theorem forall₂_exists_right {α β : Type} {R : α → β → Prop} {xs : List α} {ys : List β}
    (h : List.Forall₂ R xs ys) {x : α} (hx : x ∈ xs) : ∃ y ∈ ys, R x y := by
  induction h with
  | nil => cases hx
  | @cons x' y' xs ys hxy _ ih =>
    rcases List.mem_cons.mp hx with rfl | hx
    · exact ⟨y', List.mem_cons_self, hxy⟩
    · obtain ⟨y, hy, hR⟩ := ih hx
      exact ⟨y, List.mem_cons_of_mem _ hy, hR⟩

/-! ## The copies of a request -/

/-- What decides where the requests for a key go. -/
structure Spread where
  findServer : Bytes → Mmc
  maxFailoverAttempts : Nat
  numServers : Nat
  redundancy : Nat

/-- The servers that `mmc_pool_schedule_key` sends a copy to while every server can be reached. -/
def Spread.copies (d : Spread) (key : Bytes) : List Mmc :=
  if 1 < d.redundancy then
    copyTargets d.findServer d.maxFailoverAttempts key (min (d.redundancy - 1) (d.numServers - 1))
      (d.findServer key) [] 0
  else []

/-- `request->key` with the byte behind the key. -/
def MmcRequest.keyAndNext (q : MmcRequest) : Bytes := q.key.take q.keyLen ++ [q.key.getD q.keyLen 0]

/-- `mmc_numeric_response_handler` for an array, in any request. -/
def mmcNumericResponseHandlerArray (q : MmcRequest) (response : Int) (a : ResultArray) :
    Verdict × ResultArray :=
  if response = MMC_OK then (.done, a.addAssoc q.keyAndNext (.bool true))
  else if response = MMC_RESPONSE_NOT_FOUND ∨ response = MMC_RESPONSE_CLIENT_ERROR then
    (.done, a.addAssoc q.keyAndNext (.bool false))
  else (.requestFailure, a)

/-- In a request that is no copy, the key ends with a NUL. -/
theorem mmcNumericResponseHandlerMulti_eq (key : Bytes) (q : MmcRequest) (hkey : q.key = key)
    (hlen : q.keyLen = key.length) (response : Int) (a : ResultArray) :
    mmcNumericResponseHandlerMulti key response a = mmcNumericResponseHandlerArray q response a := by
  have hnext : q.keyAndNext = key ++ [0] := by
    rw [MmcRequest.keyAndNext, hkey, hlen, List.take_length]
    simp
  rw [mmcNumericResponseHandlerArray, hnext]
  rfl

/-- A call of a handler, with the server, the key and the request it is for. -/
structure CopyCall where
  server : Mmc
  zkey : ZKey
  request : MmcRequest
  call : HandlerCall

/-- What the call makes of the array. -/
def CopyCall.after (a : ResultArray) (c : CopyCall) : ResultArray :=
  match c.call with
  | .response response _ _ => (mmcNumericResponseHandlerArray c.request response a).2
  | call => mmcValueHandlerMulti a call

/-- The entry the call makes. -/
def CopyCall.entry (c : CopyCall) : Option (Bytes × ArrayValue) :=
  match c.call with
  | .response response _ _ =>
    if response = MMC_OK then some (c.request.keyAndNext, .bool true)
    else if response = MMC_RESPONSE_NOT_FOUND ∨ response = MMC_RESPONSE_CLIENT_ERROR then
      some (c.request.keyAndNext, .bool false)
    else none
  | call => call.entry

theorem CopyCall.after_eq (a : ResultArray) (c : CopyCall) :
    c.after a = c.entry.elim a fun e => a.addAssoc e.1 e.2 := by
  obtain ⟨server, zkey, request, call⟩ := c
  cases call with
  | value => rfl
  | long => rfl
  | response response message len =>
    simp only [CopyCall.after, mmcNumericResponseHandlerArray, CopyCall.entry]
    split
    · rfl
    · split <;> rfl

section Runs

variable (p : WireProtocol) (unpack : Nat → Bytes → Option Bytes) (keyPrefix : Bytes) (d : Spread)
  (args : MutateArgs)

/-- The server `m` reads the request `made`, executes it and replies in any pieces. -/
def Replied (zkey : ZKey) (made : MmcRequest) (m : Mmc) (servers servers' : Mmc → Memcached)
    (calls : List CopyCall) : Prop :=
  ∃ (io : MmcStream) (chunks : List Bytes) (c : ServerCommand) (seen : List HandlerCall)
    (result : MmcResult) (rest : Bytes),
    io.input = [] ∧ serverReads p made.sendbuf.value = some c ∧
    chunks.flatten = args.reply p c ((servers m).execute c).1 ∧
    Sees (numericHandlers unpack (made.key.take made.keyLen)) { io, chunks, req := made.rewind } seen
      result rest ∧
    calls = seen.map (fun call => ⟨m, zkey, made, call⟩) ∧
    servers' = Function.update servers m ((servers m).execute c).2

/-- The copies of a request, each in a request that comes from anywhere. -/
inductive CopiesReplied (zkey : ZKey) (request : MmcRequest) :
    List Mmc → (Mmc → Memcached) → (Mmc → Memcached) → List CopyCall → Prop
  | nil {servers : Mmc → Memcached} : CopiesReplied zkey request [] servers servers []
  | cons {clone : MmcRequest} {m : Mmc} {targets : List Mmc} {servers servers₁ servers' : Mmc → Memcached}
      {calls later : List CopyCall}
      (reply : Replied p unpack args zkey (copyRequest p request clone) m servers servers₁ calls)
      (next : CopiesReplied zkey request targets servers₁ servers' later) :
      CopiesReplied zkey request (m :: targets) servers servers' (calls ++ later)

/-- The requests of a multi-key increment and their copies, one after the other. -/
inductive CopiedIncrements : (Mmc → Memcached) → List ZKey → List CopyCall → Prop
  | nil {servers : Mmc → Memcached} : CopiedIncrements servers [] []
  | invalid {servers : Mmc → Memcached} {zkey : ZKey} {keys : List ZKey} {calls : List CopyCall}
      (refused : mmcPrepareKeyEx zkey.str keyPrefix = none)
      (next : CopiedIncrements servers keys calls) : CopiedIncrements servers (zkey :: keys) calls
  | answered {servers servers₁ servers₂ : Mmc → Memcached} {zkey : ZKey} {key : Bytes}
      {keys : List ZKey} {q : MmcRequest} {calls copied later : List CopyCall}
      (prepared : mmcPrepareKeyEx zkey.str keyPrefix = some key)
      (reply : Replied p unpack args zkey (numericRequest p args q (zkey, key)) (d.findServer key) servers
        servers₁ calls)
      (copies : CopiesReplied p unpack args zkey (numericRequest p args q (zkey, key)) (d.copies key)
        servers₁ servers₂ copied)
      (next : CopiedIncrements servers₂ keys later) :
      CopiedIncrements servers (zkey :: keys) (calls ++ copied ++ later)

/-- What an increment for an array of keys returns, and the calls that made it: those for one server
    come in the order of its requests, those for different servers in any order. -/
def CopiedIncrement (servers : Mmc → Memcached) (keys : List ZKey) (order : List CopyCall)
    (array : ResultArray) : Prop :=
  (∃ calls, CopiedIncrements p unpack keyPrefix d args servers keys calls ∧
    ∀ m, order.filter (fun c => c.server = m) = calls.filter fun c => c.server = m) ∧
  array = order.foldl CopyCall.after arrayInit

/-- An increment of the key is answered with a number. -/
def MutateArgs.counts (s : Memcached) (key : Bytes) : Bool :=
  match (s.items key).map Item.counter with
  | some (some _) => true
  | some none => false
  | none => (args.initial p).isSome

end Runs

/-- **One entry for each key**: what the answers for a key have entered is one entry, and it is under the
    key itself. -/
def EntersKeys (keys : List ZKey) (order : List CopyCall) (array : ResultArray) : Prop :=
  ∀ zkey ∈ keys, ∀ x,
    (array x ≠ none ∧ ∃ c ∈ order, c.zkey = zkey ∧ ∃ v, c.entry = some (x, v)) ↔ x = zkey.str

/-! ## One request and its copies -/

section Copies

variable {p : WireProtocol} {unpack : Nat → Bytes → Option Bytes} {args : MutateArgs}

theorem copyRequest_sendbuf (q clone : MmcRequest) :
    (copyRequest p q clone).sendbuf.value = q.sendbuf.value := by
  cases p <;> rfl

/-- A copy waits for the same reply. -/
theorem awaitsNumber_copyRequest (q clone : MmcRequest) (k : ZKey × Bytes) :
    AwaitsNumber p k (copyRequest p (numericRequest p args q k) clone).rewind := by
  have hkey : ((k.2.take k.2.length ++ clone.key.drop k.2.length).take k.2.length) = k.2 := by simp
  cases p with
  | ascii => exact ⟨rfl, hkey, fun _ => rfl, fun h => by cases h⟩
  | binary => exact ⟨rfl, hkey, (fun h => by cases h), fun _ => ⟨rfl, rfl, rfl⟩⟩

theorem keyAndNext_numericRequest (q : MmcRequest) (k : ZKey × Bytes) :
    (numericRequest p args q k).keyAndNext = k.2 ++ [0] := by
  have hkey : (numericRequest p args q k).key = k.2 := by cases p <;> rfl
  have hlen : (numericRequest p args q k).keyLen = k.2.length := by cases p <;> rfl
  rw [MmcRequest.keyAndNext, hkey, hlen]
  simp

theorem keyAndNext_copyRequest (q clone : MmcRequest) (k : ZKey × Bytes) :
    (copyRequest p (numericRequest p args q k) clone).keyAndNext
      = k.2 ++ [clone.key.getD k.2.length 0] := by
  have hkey : (copyRequest p (numericRequest p args q k) clone).key
      = k.2.take k.2.length ++ clone.key.drop k.2.length := by cases p <;> rfl
  have hlen : (copyRequest p (numericRequest p args q k) clone).keyLen = k.2.length := by
    cases p <;> rfl
  rw [MmcRequest.keyAndNext, hkey, hlen, List.take_length, List.take_left,
    List.getD_append_right _ _ _ _ (Nat.le_refl _), Nat.sub_self]
  simp [List.getD_eq_getElem?_getD]

/-! ## What answers with a number -/

theorem execute_number_iff (s : Memcached) (key : Bytes) :
    (∃ n, (s.execute (args.command p key)).1 = .number n) ↔ args.counts p s key = true := by
  rw [(execute_step args p s key).1, MutateArgs.counts]
  cases (s.items key).map Item.counter with
  | none =>
    simp only [MutateArgs.step]
    cases args.initial p <;> simp
  | some counter => cases counter <;> simp [MutateArgs.step]

/-- An increment leaves what answers with a number. -/
theorem counts_execute (s : Memcached) (key key' : Bytes) :
    args.counts p (s.execute (args.command p key')).2 key = args.counts p s key := by
  obtain ⟨-, hkey, hothers⟩ := execute_step args p s key'
  by_cases hsame : key = key'
  · subst hsame
    rw [MutateArgs.counts, MutateArgs.counts, hkey]
    cases (s.items key).map Item.counter with
    | none =>
      simp only [MutateArgs.step]
      cases args.initial p <;> simp
    | some counter => cases counter <;> simp [MutateArgs.step]
  · rw [MutateArgs.counts, MutateArgs.counts, hothers key hsame]

/-- The same increments are answered with numbers. -/
def SameCounts (p : WireProtocol) (args : MutateArgs) (servers servers' : Mmc → Memcached) : Prop :=
  ∀ m key, args.counts p (servers' m) key = args.counts p (servers m) key

theorem SameCounts.trans {servers servers₁ servers' : Mmc → Memcached}
    (h : SameCounts p args servers servers₁) (h' : SameCounts p args servers₁ servers') :
    SameCounts p args servers servers' := fun m key => (h' m key).trans (h m key)

theorem sameCounts_update (servers : Mmc → Memcached) (m : Mmc) (key : Bytes) :
    SameCounts p args servers
      (Function.update servers m ((servers m).execute (args.command p key)).2) := by
  intro m' key'
  by_cases hm : m' = m
  · subst hm
    rw [Function.update_self, counts_execute]
  · rw [Function.update_of_ne hm]

/-- What an answer enters, when the byte behind the key is `b`. -/
def Enters (p : WireProtocol) (args : MutateArgs) (servers : Mmc → Memcached) (m : Mmc)
    (k : ZKey × Bytes) (b : UInt8) (c : CopyCall) : Prop :=
  c.server = m ∧ c.zkey = k.1 ∧
    ∃ v, c.entry = some (if args.counts p (servers m) k.2 then resultKey p k else k.2 ++ [b], v)

theorem Enters.congr {servers servers' : Mmc → Memcached} (hsame : SameCounts p args servers servers')
    {m : Mmc} {k : ZKey × Bytes} {b : UInt8} {c : CopyCall} (h : Enters p args servers' m k b c) :
    Enters p args servers m k b c := by
  obtain ⟨hserver, hzkey, hentry⟩ := h
  rw [hsame m k.2] at hentry
  exact ⟨hserver, hzkey, hentry⟩

/-- The call that an outcome leads to enters it. -/
theorem enters_of_reports {servers : Mmc → Memcached} {m : Mmc} {k : ZKey × Bytes} {b : UInt8}
    {made : MmcRequest} {call : HandlerCall} (hnext : made.keyAndNext = k.2 ++ [b])
    (h : call.Reports p k ((servers m).execute (args.command p k.2)).1) :
    Enters p args servers m k b ⟨m, k.1, made, call⟩ := by
  refine ⟨rfl, rfl, ?_⟩
  have hnumber := @execute_number_iff p args (servers m) k.2
  generalize ((servers m).execute (args.command p k.2)).1 = o at h hnumber
  cases h with
  | @number n v flags cas =>
    rw [if_pos (hnumber.mp ⟨n, rfl⟩)]
    exact ⟨_, rfl⟩
  | @refusal _ response message len ho hresponse =>
    have hrefused : ¬ args.counts p (servers m) k.2 = true := by
      rw [← hnumber]
      rintro ⟨n, rfl⟩
      rcases ho with ho | ho <;> cases ho
    rw [if_neg hrefused, ← hnext]
    refine ⟨.bool false, ?_⟩
    rcases hresponse with rfl | rfl <;> rfl

/-- A request with the command for the key `k`, waiting for the reply. -/
structure Asks (p : WireProtocol) (args : MutateArgs) (k : ZKey × Bytes) (made : MmcRequest) : Prop where
  awaits : AwaitsNumber p k made.rewind
  reads : serverReads p made.sendbuf.value = some (args.command p k.2)

theorem Asks.key {k : ZKey × Bytes} {made : MmcRequest} (h : Asks p args k made) :
    made.key.take made.keyLen = k.2 := h.awaits.key

/-- **A request that is answered** makes one call, for the outcome. -/
theorem Replied.spec {k : ZKey × Bytes} {made : MmcRequest} (hasks : Asks p args k made) {m : Mmc}
    {servers servers' : Mmc → Memcached} {calls : List CopyCall}
    (h : Replied p unpack args k.1 made m servers servers' calls) :
    (∃ call : HandlerCall, call.Reports p k ((servers m).execute (args.command p k.2)).1 ∧
      calls = [⟨m, k.1, made, call⟩]) ∧
    servers' = Function.update servers m ((servers m).execute (args.command p k.2)).2 := by
  obtain ⟨io, chunks, c, seen, result, rest, hio, hreads, hreply, hsees, rfl, rfl⟩ := h
  rw [hasks.reads] at hreads
  cases hreads
  obtain ⟨call, hreports, hiff⟩ := @oneReport unpack args (made.key.take made.keyLen) _ k io chunks _ p
    hasks.awaits hio (args.outcome p _ k.2) hreply
  obtain ⟨-, rfl, -⟩ := (hiff seen result rest).mp hsees
  exact ⟨⟨call, hreports, rfl⟩, rfl⟩

theorem exists_replied {k : ZKey × Bytes} {made : MmcRequest} (hasks : Asks p args k made) (m : Mmc)
    (servers : Mmc → Memcached) :
    ∃ servers' calls, Replied p unpack args k.1 made m servers servers' calls := by
  have hwhole : [args.reply p (args.command p k.2)
      ((servers m).execute (args.command p k.2)).1].flatten
        = args.reply p (args.command p k.2) ((servers m).execute (args.command p k.2)).1 := by simp
  obtain ⟨call, -, hiff⟩ := @oneReport unpack args (made.key.take made.keyLen) _ k {} _ _ p
    hasks.awaits rfl (args.outcome p _ k.2) hwhole
  exact ⟨_, _, {}, _, _, [call], .done, [], rfl, hasks.reads, hwhole, (hiff _ _ _).mpr ⟨rfl, rfl, rfl⟩,
    rfl, rfl⟩

section Key

variable {k : ZKey × Bytes} {q : MmcRequest}
  (hreads : serverReads p (numericRequest p args q k).sendbuf.value = some (args.command p k.2))

include hreads

theorem asks_numericRequest : Asks p args k (numericRequest p args q k) :=
  ⟨awaitsNumber_numericRequest p args q k, hreads⟩

theorem asks_copyRequest (clone : MmcRequest) :
    Asks p args k (copyRequest p (numericRequest p args q k) clone) :=
  ⟨awaitsNumber_copyRequest q clone k, by rw [copyRequest_sendbuf, hreads]⟩

/-- **The copies**: each makes one call, with any byte behind the key. -/
theorem CopiesReplied.enters {targets : List Mmc} {servers servers' : Mmc → Memcached}
    {calls : List CopyCall}
    (h : CopiesReplied p unpack args k.1 (numericRequest p args q k) targets servers servers' calls) :
    List.Forall₂ (fun m c => ∃ b, Enters p args servers m k b c) targets calls ∧
      SameCounts p args servers servers' := by
  induction h with
  | nil => exact ⟨.nil, fun _ _ => rfl⟩
  | @cons clone m targets servers servers₁ servers' calls later hreply _ ih =>
    obtain ⟨⟨call, hreports, rfl⟩, rfl⟩ := hreply.spec (asks_copyRequest hreads clone)
    have hsame := @sameCounts_update p args servers m k.2
    have henters := enters_of_reports (@keyAndNext_copyRequest p args q clone k) hreports
    refine ⟨.cons ⟨_, henters⟩ ?_, hsame.trans ih.2⟩
    exact ih.1.imp fun m' c ⟨b, hb⟩ => ⟨b, hb.congr hsame⟩

/-- Copies whose buffers have the byte `b` behind the key. -/
theorem exists_copiesReplied (b : UInt8) (targets : List Mmc) (servers : Mmc → Memcached) :
    ∃ servers' calls,
      CopiesReplied p unpack args k.1 (numericRequest p args q k) targets servers servers' calls ∧
        List.Forall₂ (fun m c => Enters p args servers m k b c) targets calls ∧
        SameCounts p args servers servers' := by
  induction targets generalizing servers with
  | nil => exact ⟨servers, [], .nil, .nil, fun _ _ => rfl⟩
  | cons m targets ih =>
    have hasks := asks_copyRequest hreads { key := k.2 ++ [b] }
    obtain ⟨servers₁, calls, hreply⟩ := @exists_replied p unpack args k _ hasks m servers
    obtain ⟨⟨call, hreports, rfl⟩, rfl⟩ := hreply.spec hasks
    have hsame := @sameCounts_update p args servers m k.2
    obtain ⟨servers', later, hcopies, henters, hsame'⟩ :=
      ih (Function.update servers m ((servers m).execute (args.command p k.2)).2)
    refine ⟨servers', _, .cons hreply hcopies, .cons ?_ ?_, hsame.trans hsame'⟩
    · refine enters_of_reports ?_ hreports
      rw [keyAndNext_copyRequest]
      simp
    · exact henters.imp fun m' c hc => hc.congr hsame

end Key

end Copies

/-! ## All keys -/

section Keys

variable {p : WireProtocol} {unpack : Nat → Bytes → Option Bytes} {keyPrefix : Bytes} {d : Spread}
  {args : MutateArgs}

/-- The calls for one key: the first is for the request itself. -/
def KeyCalls (p : WireProtocol) (d : Spread) (args : MutateArgs) (servers : Mmc → Memcached)
    (behind : UInt8 → Prop) (k : ZKey × Bytes) (calls : List CopyCall) : Prop :=
  ∃ c copied, calls = c :: copied ∧ Enters p args servers (d.findServer k.2) k 0 c ∧
    List.Forall₂ (fun m c => ∃ b, behind b ∧ Enters p args servers m k b c) (d.copies k.2) copied

theorem KeyCalls.congr {servers servers' : Mmc → Memcached} (hsame : SameCounts p args servers servers')
    {behind : UInt8 → Prop} {k : ZKey × Bytes} {calls : List CopyCall}
    (h : KeyCalls p d args servers' behind k calls) : KeyCalls p d args servers behind k calls := by
  obtain ⟨c, copied, rfl, hc, hcopied⟩ := h
  exact ⟨c, copied, rfl, hc.congr hsame,
    hcopied.imp fun m c ⟨b, hb, henters⟩ => ⟨b, hb, henters.congr hsame⟩⟩

/-- **All requests**: the calls are those for the valid keys. -/
theorem CopiedIncrements.keyCalls {servers : Mmc → Memcached} {keys : List ZKey} {calls : List CopyCall}
    (h : KeysFit keyPrefix keys) (hrun : CopiedIncrements p unpack keyPrefix d args servers keys calls) :
    ∃ parts : List (List CopyCall), calls = parts.flatten ∧
      List.Forall₂ (KeyCalls p d args servers fun _ => True) (validKeys keyPrefix keys) parts := by
  induction hrun with
  | nil => exact ⟨[], rfl, .nil⟩
  | @invalid servers zkey keys calls hrefused _ ih =>
    rw [validKeys_cons_none hrefused]
    exact ih h.tail
  | @answered servers servers₁ servers₂ zkey key keys q calls copied later hprepared hreply hcopies _ ih =>
    have hcons := validKeys_cons_some keys hprepared
    obtain ⟨hplain, hne, hlen⟩ := h.sent (hcons ▸ List.mem_cons_self)
    have hreads := @serverReads_numericRequest p args q (zkey, key) hplain hne hlen
    obtain ⟨⟨call, hreports, rfl⟩, rfl⟩ := hreply.spec (asks_numericRequest hreads)
    have hsame := @sameCounts_update p args servers (d.findServer key) key
    obtain ⟨hcopied, hsame'⟩ := hcopies.enters hreads
    obtain ⟨parts, rfl, hparts⟩ := ih h.tail
    rw [hcons]
    refine ⟨(_ :: copied) :: parts, rfl, .cons ⟨_, copied, rfl, ?_, ?_⟩ ?_⟩
    · exact enters_of_reports (keyAndNext_numericRequest q (zkey, key)) hreports
    · exact hcopied.imp fun m c ⟨b, hb⟩ => ⟨b, trivial, hb.congr hsame⟩
    · exact hparts.imp fun k part hpart => hpart.congr (hsame.trans hsame')

/-- There is a run, whatever stands behind the keys in the copies. -/
theorem exists_copiedIncrements (behind : ZKey × Bytes → UInt8) {servers : Mmc → Memcached}
    {keys : List ZKey} (h : KeysFit keyPrefix keys) :
    ∃ parts : List (List CopyCall),
      CopiedIncrements p unpack keyPrefix d args servers keys parts.flatten ∧
      List.Forall₂ (fun k => KeyCalls p d args servers (fun b => b = behind k) k)
        (validKeys keyPrefix keys) parts := by
  induction keys generalizing servers with
  | nil => exact ⟨[], .nil, .nil⟩
  | cons zkey keys ih =>
    cases hprepare : mmcPrepareKeyEx zkey.str keyPrefix with
    | none =>
      obtain ⟨parts, hrun, hparts⟩ := @ih servers h.tail
      rw [validKeys_cons_none hprepare]
      exact ⟨parts, .invalid hprepare hrun, hparts⟩
    | some key =>
      have hcons := validKeys_cons_some keys hprepare
      obtain ⟨hplain, hne, hlen⟩ := h.sent (hcons ▸ List.mem_cons_self)
      have hreads := @serverReads_numericRequest p args {} (zkey, key) hplain hne hlen
      have hasks := asks_numericRequest hreads
      obtain ⟨servers₁, calls, hreply⟩ :=
        @exists_replied p unpack args _ _ hasks (d.findServer key) servers
      obtain ⟨⟨call, hreports, rfl⟩, rfl⟩ := hreply.spec hasks
      have hsame := @sameCounts_update p args servers (d.findServer key) key
      obtain ⟨servers₂, copied, hcopies, hcopied, hsame'⟩ :=
        @exists_copiesReplied p unpack args _ _ hreads (behind (zkey, key)) (d.copies key)
          (Function.update servers (d.findServer key)
            ((servers (d.findServer key)).execute (args.command p key)).2)
      obtain ⟨parts, hrun, hparts⟩ := @ih servers₂ h.tail
      rw [hcons]
      refine ⟨(_ :: copied) :: parts, .answered hprepare hreply hcopies hrun,
        .cons ⟨_, copied, rfl, ?_, ?_⟩ ?_⟩
      · exact enters_of_reports (keyAndNext_numericRequest {} (zkey, key)) hreports
      · exact hcopied.imp fun m c hc => ⟨_, rfl, hc.congr hsame⟩
      · exact hparts.imp fun k part hpart => hpart.congr (hsame.trans hsame')

/-! ## The entries of the array -/

/-- The condition for a key: a server that gets a copy answers with a number, which is entered under the
    key itself, and so does the server of the key, unless the refusal is entered under the key itself
    because it ends in a NUL that is not sent. -/
def EnteredUnderKey (p : WireProtocol) (d : Spread) (args : MutateArgs) (servers : Mmc → Memcached)
    (k : ZKey × Bytes) : Prop :=
  (if args.counts p (servers (d.findServer k.2)) k.2 then resultKey p k else k.2 ++ [0]) = k.1.str ∧
    ∀ m ∈ d.copies k.2, args.counts p (servers m) k.2 = true ∧ resultKey p k = k.1.str

/-- A call enters something for the key. -/
theorem KeyCalls.enters {servers : Mmc → Memcached} {behind : UInt8 → Prop} {k : ZKey × Bytes}
    {calls : List CopyCall} (h : KeyCalls p d args servers behind k calls) {c : CopyCall}
    (hc : c ∈ calls) :
    c.zkey = k.1 ∧ (Enters p args servers (d.findServer k.2) k 0 c ∨
      ∃ m ∈ d.copies k.2, ∃ b, behind b ∧ Enters p args servers m k b c) := by
  obtain ⟨first, copied, rfl, hfirst, hcopied⟩ := h
  rcases List.mem_cons.mp hc with rfl | hc
  · exact ⟨hfirst.2.1, Or.inl hfirst⟩
  · obtain ⟨m, hm, b, hb, henters⟩ := forall₂_exists_right hcopied.flip hc
    exact ⟨henters.2.1, Or.inr ⟨m, hm, b, hb, henters⟩⟩

theorem after_entries (order : List CopyCall) (x : Bytes) :
    order.foldl CopyCall.after arrayInit x ≠ none ↔ ∃ c ∈ order, ∃ v, c.entry = some (x, v) := by
  have hfold : order.foldl CopyCall.after arrayInit = writeAll (order.filterMap CopyCall.entry) :=
    foldl_eq_writeAll CopyCall.after_eq order
  rw [hfold, Ne, writeAll_eq_none_iff]
  constructor
  · intro h
    push Not at h
    obtain ⟨w, hw, rfl⟩ := h
    obtain ⟨c, hc, hentry⟩ := List.mem_filterMap.mp hw
    exact ⟨c, hc, w.2, hentry⟩
  · rintro ⟨c, hc, v, hentry⟩ h
    exact h _ (List.mem_filterMap.mpr ⟨c, hc, hentry⟩) rfl

/-- What the calls have entered is in the array. -/
theorem entersKeys_iff_entries {servers : Mmc → Memcached} {keys : List ZKey} {order : List CopyCall}
    {array : ResultArray} (hrun : CopiedIncrement p unpack keyPrefix d args servers keys order array) :
    EntersKeys keys order array ↔
      ∀ zkey ∈ keys, ∀ x, (∃ c ∈ order, c.zkey = zkey ∧ ∃ v, c.entry = some (x, v)) ↔ x = zkey.str := by
  obtain ⟨-, rfl⟩ := hrun
  refine forall₂_congr fun zkey _ => forall_congr' fun x => ?_
  rw [and_iff_right_of_imp]
  rintro ⟨c, hc, -, hentry⟩
  exact (after_entries order x).mpr ⟨c, hc, hentry⟩

/-- The order of the answers does not matter. -/
theorem mem_of_filter_eq {order calls : List CopyCall}
    (h : ∀ m, order.filter (fun c => c.server = m) = calls.filter fun c => c.server = m)
    (c : CopyCall) : c ∈ order ↔ c ∈ calls := by
  have hc := congrArg (c ∈ ·) (h c.server)
  simpa using hc

/-- **Under the condition** every key has its entry. -/
theorem entersKeys_of_enteredUnderKey {servers : Mmc → Memcached} {keys : List ZKey}
    (h : KeysFit keyPrefix keys) (hvalid : ∀ zkey ∈ keys, mmcPrepareKeyEx zkey.str keyPrefix ≠ none)
    (hall : ∀ k ∈ validKeys keyPrefix keys, EnteredUnderKey p d args servers k)
    {order : List CopyCall} {array : ResultArray}
    (hrun : CopiedIncrement p unpack keyPrefix d args servers keys order array) :
    EntersKeys keys order array := by
  rw [entersKeys_iff_entries hrun]
  obtain ⟨⟨calls, hcalls, horder⟩, -⟩ := hrun
  obtain ⟨parts, rfl, hparts⟩ := hcalls.keyCalls h
  -- every entry of a key is under the key itself
  have hunder : ∀ c ∈ order, ∃ v, c.entry = some (c.zkey.str, v) := by
    intro c hc
    obtain ⟨part, hpart, hcpart⟩ := List.mem_flatten.mp ((mem_of_filter_eq horder c).mp hc)
    obtain ⟨k, hk, hkey⟩ := forall₂_exists_right hparts.flip hpart
    obtain ⟨hfirst, hcopies⟩ := hall k hk
    obtain ⟨hzkey, henters⟩ := KeyCalls.enters hkey hcpart
    rw [hzkey]
    rcases henters with ⟨-, -, hentry⟩ | ⟨m, hm, b, -, -, -, hentry⟩
    · rwa [hfirst] at hentry
    · obtain ⟨hcounts, hsame⟩ := hcopies m hm
      rwa [if_pos hcounts, hsame] at hentry
  intro zkey hzkey x
  constructor
  · rintro ⟨c, hc, rfl, v, hentry⟩
    obtain ⟨v', hentry'⟩ := hunder c hc
    rw [hentry'] at hentry
    exact (congrArg Prod.fst (Option.some.inj hentry)).symm
  · rintro rfl
    obtain ⟨key, hkey⟩ := Option.ne_none_iff_exists'.mp (hvalid zkey hzkey)
    have hk : (zkey, key) ∈ validKeys keyPrefix keys := mem_validKeys.mpr ⟨hzkey, hkey⟩
    obtain ⟨part, hpart, first, copied, rfl, ⟨-, rfl, -⟩, -⟩ := forall₂_exists_right hparts hk
    have hmem := (mem_of_filter_eq horder first).mpr
      (List.mem_flatten.mpr ⟨_, hpart, List.mem_cons_self⟩)
    exact ⟨first, hmem, rfl, hunder first hmem⟩

/-- **Where the condition fails**, some run has an entry that is not under its key. -/
theorem enteredUnderKey_of_entersKeys {servers : Mmc → Memcached} {keys : List ZKey}
    (h : KeysFit keyPrefix keys)
    (hall : ∀ order array, CopiedIncrement p unpack keyPrefix d args servers keys order array →
      EntersKeys keys order array) :
    ∀ k ∈ validKeys keyPrefix keys, EnteredUnderKey p d args servers k := by
  -- the byte behind the key in the copies, with which a refusal is entered under another key
  let behind : ZKey × Bytes → UInt8 := fun k => if k.1.str = k.2 ++ [0] then 1 else 0
  have hother : ∀ k : ZKey × Bytes, k.2 ++ [behind k] ≠ k.1.str := by
    intro k heq
    by_cases hnul : k.1.str = k.2 ++ [0]
    · rw [hnul, show behind k = 1 from if_pos hnul] at heq
      exact absurd (List.append_cancel_left heq) (by decide)
    · rw [show behind k = 0 from if_neg hnul] at heq
      exact hnul heq.symm
  obtain ⟨parts, hcalls, hparts⟩ :=
    @exists_copiedIncrements p unpack keyPrefix d args behind servers keys h
  have hrun : CopiedIncrement p unpack keyPrefix d args servers keys parts.flatten _ :=
    ⟨⟨_, hcalls, fun _ => rfl⟩, rfl⟩
  have hentries := (entersKeys_iff_entries hrun).mp (hall _ _ hrun)
  intro k hk
  obtain ⟨part, hpart, first, copied, rfl, hfirst, hcopied⟩ := forall₂_exists_right hparts hk
  have hunder : ∀ c ∈ first :: copied, c.zkey = k.1 → ∀ x v, c.entry = some (x, v) → x = k.1.str :=
    fun c hc hzkey x v hentry => (hentries k.1 (mem_validKeys.mp hk).1 x).mp
      ⟨c, List.mem_flatten.mpr ⟨_, hpart, hc⟩, hzkey, v, hentry⟩
  constructor
  · obtain ⟨-, hzkey, v, hentry⟩ := hfirst
    exact hunder first List.mem_cons_self hzkey _ v hentry
  · intro m hm
    obtain ⟨c, hc, b, rfl, -, hzkey, v, hentry⟩ := forall₂_exists_right hcopied hm
    have hkey := hunder c (List.mem_cons_of_mem _ hc) hzkey _ v hentry
    by_cases hcounts : args.counts p (servers m) k.2 = true
    · rw [if_pos hcounts] at hkey
      exact ⟨hcounts, hkey⟩
    · rw [if_neg hcounts] at hkey
      exact absurd hkey (hother k)

/-- **When an increment has one entry for each key**, under the key itself. -/
theorem entersKeys_iff_enteredUnderKey {servers : Mmc → Memcached} {keys : List ZKey}
    (h : KeysFit keyPrefix keys) (hvalid : ∀ zkey ∈ keys, mmcPrepareKeyEx zkey.str keyPrefix ≠ none) :
    (∀ order array, CopiedIncrement p unpack keyPrefix d args servers keys order array →
        EntersKeys keys order array) ↔
      ∀ k ∈ validKeys keyPrefix keys, EnteredUnderKey p d args servers k :=
  ⟨enteredUnderKey_of_entersKeys h,
    fun hall _ _ hrun => entersKeys_of_enteredUnderKey h hvalid hall hrun⟩

end Keys

/-- Two servers, and a copy of every request to the other server. -/
def twoCopies : Spread where
  findServer key := if key = [110] then 0 else 1
  maxFailoverAttempts := 20
  numServers := 2
  redundancy := 2

/-- The counter `n` holds 5 on both servers. -/
theorem increment_counter_enters :
    (∃ order array, CopiedIncrement .ascii (fun _ data => some data) [] twoCopies { value := 1 }
      (fun _ => serverWith [110] [53] (by decide)) [⟨1, [110]⟩] order array) ∧
    ∀ order array, CopiedIncrement .ascii (fun _ data => some data) [] twoCopies { value := 1 }
      (fun _ => serverWith [110] [53] (by decide)) [⟨1, [110]⟩] order array →
      EntersKeys [⟨1, [110]⟩] order array := by
  have hfit : KeysFit [] [⟨1, [110]⟩] := keysFit_single (by decide) (by decide)
  constructor
  · obtain ⟨parts, hcalls, -⟩ := exists_copiedIncrements (fun _ => 0) hfit
    exact ⟨_, _, ⟨_, hcalls, fun _ => rfl⟩, rfl⟩
  · refine (entersKeys_iff_enteredUnderKey hfit (by decide)).mpr fun k hk => ?_
    obtain rfl : k = (⟨1, [110]⟩, [110]) := List.mem_singleton.mp hk
    unfold EnteredUnderKey
    decide +kernel

/-- The key `n` is missing: its refusal is entered under `"n\0"`. -/
theorem increment_missing_not_enters :
    ¬ ∀ order array, CopiedIncrement .ascii (fun _ data => some data) [] twoCopies { value := 1 }
      (fun _ => serverWith [109] [53] (by decide)) [⟨1, [110]⟩] order array →
      EntersKeys [⟨1, [110]⟩] order array := by
  intro hall
  have hunder := enteredUnderKey_of_entersKeys (keysFit_single (by decide) (by decide)) hall
    (⟨1, [110]⟩, [110]) (by decide)
  exact absurd hunder.1 (by decide +kernel)

end PeclMemcache
