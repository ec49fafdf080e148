import PeclMemcache.Parity

set_option autoImplicit false

/-! # Many servers, one store

A pool places every key on one of its servers. Scripts of operations on single keys cannot tell the servers
of a pool from one that holds all items, as long as no token of an item is asked for: every server counts
its own. -/

namespace PeclMemcache

/-! ## Servers that hold the same -/

/-- The same data and flags; the tokens may differ. -/
structure Item.SameContent (i j : Item) : Prop where
  data : j.data = i.data
  flags : j.flags = i.flags

/-- Two servers hold the same under a key. -/
def Memcached.SameAt (s t : Memcached) (key : Bytes) : Prop :=
  Option.Rel Item.SameContent (s.items key) (t.items key)

/-- The operations that show no tokens. -/
def ApiOperation.Tokenless : ApiOperation → Prop
  | .cas .. => False
  | .get withCas => withCas = false
  | _ => True

/-- The operations on a key. -/
def ApiOperation.OnKey : ApiOperation → Prop
  | .flush _ => False
  | _ => True

section SameAt

variable {s t s' t' : Memcached} {key : Bytes}

theorem Item.SameContent.counter {i j : Item} (h : i.SameContent j) : j.counter = i.counter := by
  rw [Item.counter, Item.counter, h.data]

/-- The same is stored: the outcome is the same, and so is what is held then. -/
theorem Memcached.SameAt.put (h : s.SameAt t key) (flags : UInt32) (data : Bytes) :
    (s.put key flags data).1 = (t.put key flags data).1 ∧
      (s.put key flags data).2.SameAt (t.put key flags data).2 key := by
  by_cases hsmall : data.length ≤ itemLimit
  · simp only [Memcached.put, hsmall, dif_pos, true_and]
    simp only [Memcached.SameAt, Function.update_self]
    exact .some ⟨rfl, rfl⟩
  · simpa only [Memcached.put, hsmall, dif_neg, not_false_eq_true, true_and] using h

/-- Either there is nothing, or an item with the same content. -/
theorem Memcached.SameAt.items_cases (h : s.SameAt t key) :
    (s.items key = none ∧ t.items key = none) ∨
      ∃ i j, s.items key = some i ∧ t.items key = some j ∧ i.SameContent j := by
  unfold SameAt at h
  generalize s.items key = a at h
  generalize t.items key = b at h
  cases h with
  | none => exact Or.inl ⟨rfl, rfl⟩
  | some h => exact Or.inr ⟨_, _, rfl, rfl, h⟩

theorem Memcached.SameAt.change (h : s.SameAt t key) (f : UInt64 → UInt64) :
    (s.change key f none).1 = (t.change key f none).1 ∧
      (s.change key f none).2.SameAt (t.change key f none).2 key := by
  unfold Memcached.change
  rcases h.items_cases with ⟨hs, ht⟩ | ⟨i, j, hs, ht, hsame⟩
  · rw [hs, ht]
    exact ⟨rfl, h⟩
  · rw [hs, ht]
    dsimp only
    rw [hsame.counter]
    cases i.counter with
    | none => exact ⟨rfl, h⟩
    | some n =>
      refine ⟨rfl, ?_⟩
      rw [hsame.flags]
      exact (h.put i.flags _).2

/-- **An operation that shows no tokens** answers the same on two servers that hold the same under its key,
    and leaves the same behind. -/
theorem Memcached.SameAt.execute (h : s.SameAt t key) {op : ApiOperation} (hop : op.Tokenless)
    (hkey : op.OnKey) (unpack : Nat → Bytes → Option Bytes) :
    op.answer unpack (s.execute (op.serverCommand .ascii key)).1 =
        op.answer unpack (t.execute (op.serverCommand .ascii key)).1 ∧
      (s.execute (op.serverCommand .ascii key)).2.SameAt (t.execute (op.serverCommand .ascii key)).2 key := by
  cases op with
  | cas exptime flags value token => exact hop.elim
  | flush delay => exact hkey.elim
  | get withCas =>
    have hcas : withCas = false := hop
    simp only [ApiOperation.serverCommand, Memcached.execute]
    rcases h.items_cases with ⟨hs, ht⟩ | ⟨i, j, hs, ht, hsame⟩
    · rw [hs, ht]
      exact ⟨rfl, h⟩
    · rw [hs, ht]
      refine ⟨?_, h⟩
      simp [ApiOperation.answer, hcas, hsame.data, hsame.flags]
  | delete =>
    simp only [ApiOperation.serverCommand, Memcached.execute]
    rcases h.items_cases with ⟨hs, ht⟩ | ⟨i, j, hs, ht, hsame⟩
    · rw [hs, ht]
      exact ⟨rfl, h⟩
    · rw [hs, ht]
      refine ⟨rfl, ?_⟩
      simp only [Memcached.SameAt, Function.update_self]
      exact .none
  | mutate value =>
    have hchange (f : UInt64 → UInt64) := h.change f
    simp only [ApiOperation.serverCommand]
    split
    · exact ⟨congrArg _ (hchange _).1, (hchange _).2⟩
    · exact ⟨congrArg _ (hchange _).1, (hchange _).2⟩
  | store verb exptime flags value =>
    have hput (flags : UInt32) (data : Bytes) := h.put flags data
    simp only [ApiOperation.serverCommand, Memcached.execute]
    rcases h.items_cases with ⟨hs, ht⟩ | ⟨i, j, hs, ht, hsame⟩
    · rw [hs, ht]
      cases verb with
      | set => exact ⟨congrArg _ (hput _ _).1, (hput _ _).2⟩
      | add => exact ⟨congrArg _ (hput _ _).1, (hput _ _).2⟩
      | replace => exact ⟨rfl, h⟩
      | append => exact ⟨rfl, h⟩
      | prepend => exact ⟨rfl, h⟩
    · rw [hs, ht]
      cases verb with
      | set => exact ⟨congrArg _ (hput _ _).1, (hput _ _).2⟩
      | add => exact ⟨rfl, h⟩
      | replace => exact ⟨congrArg _ (hput _ _).1, (hput _ _).2⟩
      | append =>
        simp only [hsame.data, hsame.flags]
        exact ⟨congrArg _ (hput _ _).1, (hput _ _).2⟩
      | prepend =>
        simp only [hsame.data, hsame.flags]
        exact ⟨congrArg _ (hput _ _).1, (hput _ _).2⟩

/-- The condition on an operation is one on what is held under its key. -/
theorem ApiOperation.Agrees.of_sameAt {op : ApiOperation} (h : op.Agrees t key) (hsame : s.SameAt t key) :
    op.Agrees s key := by
  have hne : t.items key ≠ none → s.items key ≠ none := by
    rcases hsame.items_cases with ⟨hs, ht⟩ | ⟨i, j, hs, ht, _⟩
    · exact fun hitem => absurd ht hitem
    · simp [hs]
  refine ⟨h.1, ?_⟩
  cases op with
  | store verb exptime flags value => exact ⟨h.2.1, h.2.2.imp id (Or.imp id hne)⟩
  | cas exptime flags value token => exact ⟨h.2.1, hne h.2.2⟩
  | delete => exact h.2
  | mutate value =>
    refine ⟨h.2.1, fun i hi n hn => ?_⟩
    rcases hsame.items_cases with ⟨hs, ht⟩ | ⟨i', j, hs, ht, hcontent⟩
    · rw [hs] at hi
      cases hi
    · rw [hs] at hi
      cases hi
      exact h.2.2 j ht n (hcontent.counter ▸ hn)
  | get withCas => exact h.2
  | flush delay => exact h.2

/-! ## Other keys -/

theorem Memcached.put_items_of_ne {key' : Bytes} (hne : key' ≠ key) (flags : UInt32) (data : Bytes) :
    (s.put key flags data).2.items key' = s.items key' := by
  unfold Memcached.put
  split
  · simp [hne]
  · rfl

theorem Memcached.change_items_of_ne {key' : Bytes} (hne : key' ≠ key) (f : UInt64 → UInt64)
    (initial : Option UInt64) : (s.change key f initial).2.items key' = s.items key' := by
  unfold Memcached.change
  split
  · split
    · rfl
    · exact put_items_of_ne hne _ _
  · split
    · rfl
    · exact put_items_of_ne hne _ _

/-- An operation on a key leaves the others alone. -/
theorem Memcached.execute_items_of_ne {key' : Bytes} (hne : key' ≠ key) {op : ApiOperation}
    (hkey : op.OnKey) : (s.execute (op.serverCommand .ascii key)).2.items key' = s.items key' := by
  cases op with
  | flush delay => exact hkey.elim
  | get withCas =>
    simp only [ApiOperation.serverCommand, Memcached.execute]
    split <;> rfl
  | delete =>
    simp only [ApiOperation.serverCommand, Memcached.execute]
    split
    · simp [hne]
    · rfl
  | mutate value =>
    simp only [ApiOperation.serverCommand]
    split
    · exact change_items_of_ne hne _ _
    · exact change_items_of_ne hne _ _
  | cas exptime flags value token =>
    simp only [ApiOperation.serverCommand, Memcached.execute]
    split
    · split
      · exact put_items_of_ne hne _ _
      · rfl
    · rfl
  | store verb exptime flags value =>
    simp only [ApiOperation.serverCommand, Memcached.execute]
    split <;> first | exact put_items_of_ne hne _ _ | rfl

end SameAt

/-! ## Pools of servers -/

/-- The servers of a pool, and the one that `mmc_pool_find` places a prepared key on. -/
structure Cluster where
  servers : List Mmc
  findServer : Bytes → Mmc
  placed : ∀ key, findServer key ∈ servers

section Scripts

variable (p : WireProtocol) (unpack : Nat → Bytes → Option Bytes) (keyPrefix : Bytes)

/-- The loop of `memcache_flush`: every server is flushed, and the responses are counted. -/
inductive FlushServers (zkey : ZKey) (delay : UInt32) :
    (Mmc → Memcached) → Nat → List Mmc → Nat → Bool → (Mmc → Memcached) → Prop
  | nil {s : Mmc → Memcached} {responses : Nat} : FlushServers zkey delay s responses [] responses false s
  | cons {s s' : Mmc → Memcached} {responses responses' : Nat} {m : Mmc} {servers : List Mmc} {failed : Bool}
      {q : MmcRequest} {io : MmcStream} {chunks : List Bytes} {c : ServerCommand} {calls : List HandlerCall}
      {result : MmcResult} {rest : Bytes} (input : io.input = [])
      (reads : serverReads p (((ApiOperation.flush delay).command p zkey []).sent q) = some c)
      (reply : chunks.flatten =
        (ApiOperation.flush delay).reply p (ApiOperation.flush delay).opcode c ((s m).execute c).1)
      (sees : Sees ((ApiOperation.flush delay).handlers unpack)
        (((ApiOperation.flush delay).command p zkey []).awaiting q io chunks) calls result rest)
      (later : FlushServers zkey delay (Function.update s m ((s m).execute c).2)
        (calls.foldl afterFlush responses) servers responses' failed s') :
      FlushServers zkey delay s responses (m :: servers) responses' (decide (result ≠ .done) || failed) s'

/-- One step of a script. An operation on a key is one of the server the key is placed on. -/
inductive ClusterExchange (C : Cluster) :
    (Mmc → Memcached) → ScriptStep → List Answer → (Mmc → Memcached) → Prop
  | invalid {s : Mmc → Memcached} {zkey : ZKey} {op : ApiOperation}
      (prepared : op.prepare keyPrefix zkey = none) :
      ClusterExchange C s (.operation zkey op) [⟨.bool false, false⟩] s
  | answered {s : Mmc → Memcached} {zkey : ZKey} {op : ApiOperation} {key : Bytes} {answers : List Answer}
      {t : Memcached} (onKey : op.OnKey) (prepared : op.prepare keyPrefix zkey = some key)
      (exchange : Exchange p unpack keyPrefix (s (C.findServer key)) (.operation zkey op) answers t) :
      ClusterExchange C s (.operation zkey op) answers (Function.update s (C.findServer key) t)
  | flush {s s' : Mmc → Memcached} {zkey : ZKey} {delay : UInt32} {responses : Nat} {failed : Bool}
      (servers : FlushServers p unpack zkey delay s 0 C.servers responses failed s') :
      ClusterExchange C s (.operation zkey (.flush delay))
        [⟨.bool (decide (C.servers.length ≤ responses)), failed⟩] s'
  | vanish {s : Mmc → Memcached} {gone : Bytes → Bool} :
      ClusterExchange C s (.vanish gone) [] fun m => (s m).vanish gone

/-- A run of a script. -/
inductive ClusterConversation (C : Cluster) :
    (Mmc → Memcached) → List ScriptStep → List Answer → (Mmc → Memcached) → Prop
  | nil {s : Mmc → Memcached} : ClusterConversation C s [] [] s
  | cons {s s₁ s₂ : Mmc → Memcached} {step : ScriptStep} {steps : List ScriptStep}
      {answers answers' : List Answer} (first : ClusterExchange p unpack keyPrefix C s step answers s₁)
      (later : ClusterConversation C s₁ steps answers' s₂) :
      ClusterConversation C s (step :: steps) (answers ++ answers') s₂

end Scripts

/-- One server holds what the servers of the pool hold under their keys. -/
def Cluster.Merges (C : Cluster) (s : Mmc → Memcached) (t : Memcached) : Prop :=
  ∀ key, (s (C.findServer key)).SameAt t key

def ScriptStep.Tokenless : ScriptStep → Prop
  | .operation _ op => op.Tokenless
  | .vanish _ => True

section Cluster

variable {C : Cluster} {unpack : Nat → Bytes → Option Bytes} {keyPrefix : Bytes} {s : Mmc → Memcached}
  {t : Memcached}

theorem Cluster.Merges.vanish (h : C.Merges s t) (gone : Bytes → Bool) :
    C.Merges (fun m => (s m).vanish gone) (t.vanish gone) := by
  intro key
  simp only [Memcached.SameAt, Memcached.vanish]
  cases gone key with
  | true => exact .none
  | false => exact h key

/-- An operation on a key at the server of the key is one at the server with all items. -/
theorem Cluster.Merges.execute (h : C.Merges s t) {op : ApiOperation} (hop : op.Tokenless) (hkey : op.OnKey)
    (key : Bytes) (unpack : Nat → Bytes → Option Bytes) :
    C.Merges (Function.update s (C.findServer key)
        ((s (C.findServer key)).execute (op.serverCommand .ascii key)).2)
      (t.execute (op.serverCommand .ascii key)).2 := by
  intro key'
  by_cases hne : key' = key
  · subst hne
    rw [Function.update_self]
    exact ((h key').execute hop hkey unpack).2
  · have hsame := h key'
    unfold Memcached.SameAt at hsame ⊢
    rw [Memcached.execute_items_of_ne hne hkey]
    by_cases hserver : C.findServer key' = C.findServer key
    · rw [hserver, Function.update_self, Memcached.execute_items_of_ne hne hkey, ← hserver]
      exact hsame
    · rw [Function.update_of_ne hserver]
      exact hsame

theorem afterFlush_foldl (calls : List HandlerCall) (responses : Nat) :
    calls.foldl afterFlush responses = responses + calls.foldl afterFlush 0 := by
  induction calls generalizing responses with
  | nil => rfl
  | cons call calls ih =>
    have hcall : afterFlush responses call = responses + afterFlush 0 call := by
      cases call with
      | response response message len =>
        simp only [afterFlush, mmcFlushHandler]
        split
        · rw [Nat.zero_add]
        · split <;> rfl
      | _ => rfl
    rw [List.foldl_cons, List.foldl_cons, ih (afterFlush responses call), ih (afterFlush 0 call), hcall,
      Nat.add_assoc]

theorem flush_reads (p : WireProtocol) (q : MmcRequest) (zkey : ZKey) :
    serverReads p (((ApiOperation.flush 0).command p zkey []).sent q) =
      some ((ApiOperation.flush 0).serverCommand p []) := by
  have hagrees : (ApiOperation.flush 0).Agrees ({} : Memcached) [] := ⟨trivial, rfl⟩
  exact hagrees.serverReads (by decide) (by decide) p q zkey

/-- One server is flushed: it responds, however its reply comes in. -/
theorem flush_shows (t : Memcached) (p : WireProtocol) (unpack : Nat → Bytes → Option Bytes) :
    (ApiOperation.flush 0).Shows p [] (t.execute ((ApiOperation.flush 0).serverCommand p [])).1 unpack
      (.bool true) := by
  have hagrees : (ApiOperation.flush 0).Agrees t [] := ⟨trivial, rfl⟩
  rw [hagrees.execute_eq p]
  have hanswer : (ApiOperation.flush 0).answer unpack
      (t.execute ((ApiOperation.flush 0).serverCommand .ascii [])).1 = some (.bool true) := rfl
  cases p with
  | ascii => exact ApiOperation.shows_ascii (by decide) (by decide) hagrees.key_ne_nil hanswer
  | binary => exact ApiOperation.shows_binary hanswer

/-- The loop of `memcache_flush` gets a response from every server, however the replies come in. -/
theorem flushServers_spec (unpack : Nat → Bytes → Option Bytes) (zkey : ZKey) (servers : List Mmc)
    (s : Mmc → Memcached) :
    ∃ s' : Mmc → Memcached, (∀ m ∈ servers, (s' m).items = fun _ => none) ∧
      (∀ m ∉ servers, s' m = s m) ∧ ∀ p start,
        (∀ responses failed s₁, FlushServers p unpack zkey 0 s start servers responses failed s₁ →
          start + servers.length ≤ responses ∧ failed = false ∧ s₁ = s') ∧
        ∃ responses, FlushServers p unpack zkey 0 s start servers responses false s' := by
  induction servers generalizing s with
  | nil =>
    refine ⟨s, by simp, fun _ _ => rfl, fun p start => ⟨fun responses failed s₁ h => ?_, start, .nil⟩⟩
    cases h
    exact ⟨Nat.le_refl _, rfl, rfl⟩
  | cons m servers ih =>
    have hagrees (p : WireProtocol) : (s m).execute ((ApiOperation.flush 0).serverCommand p []) =
        (s m).execute (.flush 0) := by
      cases p <;> rfl
    obtain ⟨s', hflushed, hother, hspec⟩ := ih (Function.update s m ((s m).execute (.flush 0)).2)
    refine ⟨s', fun m' hm' => ?_, fun m' hm' => ?_, fun p start => ⟨fun responses failed s₁ h => ?_, ?_⟩⟩
    · by_cases hmem : m' ∈ servers
      · exact hflushed m' hmem
      · have hm : m' = m := (List.mem_cons.mp hm').resolve_right hmem
        rw [hother m' hmem, hm, Function.update_self]
        rfl
    · obtain ⟨hm, hmem⟩ := not_or.mp (mt List.mem_cons.mpr hm')
      rw [hother m' hmem, Function.update_of_ne hm]
    · cases h with
      | @cons _ _ _ _ _ _ failed q io chunks c calls result rest input reads reply sees later =>
        rw [flush_reads] at reads
        cases reads
        obtain ⟨calls', hiff, hresult⟩ := flush_shows (s m) p unpack q zkey io chunks input reply
        obtain ⟨rfl, rfl, -⟩ := (hiff calls result rest).mp sees
        rw [hagrees p] at later
        obtain ⟨hcount, rfl, rfl⟩ := (hspec p _).1 _ _ _ later
        have hone : 1 ≤ calls'.foldl afterFlush 0 := by simpa [ApiOperation.result] using hresult
        rw [afterFlush_foldl] at hcount
        exact ⟨by rw [List.length_cons]; omega, rfl, rfl⟩
    · obtain ⟨calls, hiff, -⟩ := flush_shows (s m) p unpack {} zkey {} [(ApiOperation.flush 0).reply p
        (ApiOperation.flush 0).opcode ((ApiOperation.flush 0).serverCommand p [])
        ((s m).execute ((ApiOperation.flush 0).serverCommand p [])).1] rfl (by simp)
      obtain ⟨responses, hlater⟩ := (hspec p (calls.foldl afterFlush start)).2
      rw [← hagrees p] at hlater
      exact ⟨responses, .cons rfl (flush_reads p {} zkey) (by simp) ((hiff calls .done []).mpr ⟨rfl, rfl, rfl⟩) hlater⟩

theorem ApiOperation.onKey_or_flush (op : ApiOperation) : op.OnKey ∨ ∃ delay, op = .flush delay := by
  cases op with
  | flush delay => exact Or.inr ⟨delay, rfl⟩
  | _ => exact Or.inl trivial

/-- One behaviour, of the pool and of the server that holds everything. -/
def Cluster.Steps (C : Cluster) (unpack : Nat → Bytes → Option Bytes) (keyPrefix : Bytes)
    (s : Mmc → Memcached) (t : Memcached) (step : ScriptStep) (answers : List Answer)
    (s' : Mmc → Memcached) (t' : Memcached) : Prop :=
  ∀ p, (∀ answers₁ s₁, ClusterExchange p unpack keyPrefix C s step answers₁ s₁ ↔
      answers₁ = answers ∧ s₁ = s') ∧
    ∀ answers₁ t₁, Exchange p unpack keyPrefix t step answers₁ t₁ ↔ answers₁ = answers ∧ t₁ = t'

/-- A flush empties all servers of the pool. -/
theorem Cluster.flush_steps (C : Cluster) (s : Mmc → Memcached) (t : Memcached) (zkey : ZKey) (unpack : Nat → Bytes → Option Bytes)
    (hshort : keyPrefix.length ≤ 250) :
    ∃ s', C.Merges s' (t.execute (.flush 0)).2 ∧
      C.Steps unpack keyPrefix s t (.operation zkey (.flush 0)) [⟨.bool true, false⟩] s'
        (t.execute (.flush 0)).2 := by
  obtain ⟨s', hflushed, -, hspec⟩ := flushServers_spec unpack zkey C.servers s
  refine ⟨s', fun key => ?_, fun p => ⟨fun answers₁ s₁ => ⟨fun hx => ?_, ?_⟩, fun answers₁ t₁ => ?_⟩⟩
  · unfold Memcached.SameAt
    rw [hflushed _ (C.placed key)]
    exact .none
  · cases hx with
    | invalid prepared => cases prepared
    | answered onKey _ _ => exact onKey.elim
    | flush servers =>
      obtain ⟨hcount, rfl, rfl⟩ := (hspec p 0).1 _ _ _ servers
      rw [Nat.zero_add] at hcount
      simp [hcount]
  · rintro ⟨rfl, rfl⟩
    obtain ⟨responses, hservers⟩ := (hspec p 0).2
    have hcount := ((hspec p 0).1 _ _ _ hservers).1
    rw [Nat.zero_add] at hcount
    rw [← decide_eq_true hcount]
    exact .flush hservers
  · have hagrees : (ApiOperation.flush 0).Agrees t [] := ⟨trivial, rfl⟩
    exact hagrees.exchange_iff hshort rfl rfl p answers₁ t₁

/-- An operation with a prepared key. -/
theorem Cluster.Merges.operation (h : C.Merges s t) {op : ApiOperation} {zkey : ZKey} {key : Bytes}
    (hop : op.Tokenless) (hkey : op.OnKey) (hprepare : op.prepare keyPrefix zkey = some key)
    (hagrees : op.Agrees t key) (unpack : Nat → Bytes → Option Bytes) (hshort : keyPrefix.length ≤ 250) :
    ∃ r s', C.Merges s' (t.execute (op.serverCommand .ascii key)).2 ∧
      C.Steps unpack keyPrefix s t (.operation zkey op) [⟨r, false⟩] s'
        (t.execute (op.serverCommand .ascii key)).2 := by
  have hagrees' : op.Agrees (s (C.findServer key)) key := hagrees.of_sameAt (h key)
  obtain ⟨r, hr⟩ := hagrees.answer unpack
  have hr' := ((h key).execute hop hkey unpack).1.trans hr
  refine ⟨r, _, h.execute hop hkey key unpack, fun p => ⟨fun answers₁ s₁ => ⟨fun hx => ?_, ?_⟩,
    hagrees.exchange_iff hshort hprepare hr p⟩⟩
  · cases hx with
    | invalid prepared =>
      rw [hprepare] at prepared
      cases prepared
    | answered _ prepared exchange =>
      rw [hprepare] at prepared
      cases prepared
      obtain ⟨rfl, rfl⟩ := (hagrees'.exchange_iff hshort hprepare hr' p _ _).mp exchange
      exact ⟨rfl, rfl⟩
    | flush _ => exact hkey.elim
  · rintro ⟨rfl, rfl⟩
    exact .answered hkey hprepare ((hagrees'.exchange_iff hshort hprepare hr' p _ _).mpr ⟨rfl, rfl⟩)

/-- **The step lemma**: a step has one answer, whether the items are on many servers or on one. -/
theorem Cluster.Merges.step (h : C.Merges s t) {step : ScriptStep} (htokens : step.Tokenless)
    (hagrees : step.Agrees keyPrefix t) (unpack : Nat → Bytes → Option Bytes)
    (hshort : keyPrefix.length ≤ 250) :
    ∃ answers s', (∀ a ∈ answers, a.failed = false) ∧ C.Merges s' (step.next keyPrefix t) ∧
      C.Steps unpack keyPrefix s t step answers s' (step.next keyPrefix t) := by
  cases step with
  | vanish gone =>
    refine ⟨[], _, by simp, h.vanish gone, fun p => ⟨fun answers₁ s₁ => ⟨?_, ?_⟩,
      fun answers₁ t₁ => ⟨?_, ?_⟩⟩⟩
    · rintro ⟨⟩
      exact ⟨rfl, rfl⟩
    · rintro ⟨rfl, rfl⟩
      exact .vanish
    · rintro ⟨⟩
      exact ⟨rfl, rfl⟩
    · rintro ⟨rfl, rfl⟩
      exact .vanish
  | operation zkey op =>
    cases hprepare : op.prepare keyPrefix zkey with
    | none =>
      have hnext : (ScriptStep.operation zkey op).next keyPrefix t = t := by
        simp only [ScriptStep.next, hprepare]
      rw [hnext]
      refine ⟨[⟨.bool false, false⟩], s, by simp, h, fun p => ⟨fun answers₁ s₁ => ⟨fun hx => ?_, ?_⟩,
        fun answers₁ t₁ => ⟨fun hx => ?_, ?_⟩⟩⟩
      · cases hx with
        | invalid _ => exact ⟨rfl, rfl⟩
        | answered _ prepared _ =>
          rw [hprepare] at prepared
          cases prepared
        | flush _ => cases hprepare
      · rintro ⟨rfl, rfl⟩
        exact .invalid hprepare
      · cases hx with
        | invalid _ => exact ⟨rfl, rfl⟩
        | answered prepared _ _ _ _ =>
          rw [hprepare] at prepared
          cases prepared
      · rintro ⟨rfl, rfl⟩
        exact .invalid hprepare
    | some key =>
      have hnext : (ScriptStep.operation zkey op).next keyPrefix t =
          (t.execute (op.serverCommand .ascii key)).2 := by
        simp only [ScriptStep.next, hprepare]
      have hcondition : op.Agrees t key := hagrees key hprepare
      rw [hnext]
      rcases op.onKey_or_flush with hkey | ⟨delay, rfl⟩
      · obtain ⟨r, s', hmerges, hsteps⟩ :=
          h.operation htokens hkey hprepare hcondition unpack hshort
        exact ⟨[⟨r, false⟩], s', by simp, hmerges, hsteps⟩
      · have hdelay : delay = 0 := hcondition.2
        subst hdelay
        obtain ⟨s', hmerges, hsteps⟩ := C.flush_steps s t zkey unpack hshort
        exact ⟨[⟨.bool true, false⟩], s', by simp, hmerges, hsteps⟩

end Cluster

/-! ## Whole scripts -/

/-- The script has the same answers on a pool of servers as on one server, under both protocols and however
    the replies come in, and no server is taken for failed. -/
def ActsAsOne (unpack : Nat → Bytes → Option Bytes) (keyPrefix : Bytes) (C : Cluster)
    (s : Mmc → Memcached) (t : Memcached) (steps : List ScriptStep) : Prop :=
  ∃ answers s' t', (∀ a ∈ answers, a.failed = false) ∧ C.Merges s' t' ∧ ∀ p,
    (∀ answers₁ s₁, ClusterConversation p unpack keyPrefix C s steps answers₁ s₁ ↔
      answers₁ = answers ∧ s₁ = s') ∧
    ∀ answers₁ t₁, Conversation p unpack keyPrefix t steps answers₁ t₁ ↔ answers₁ = answers ∧ t₁ = t'

/-- Two servers, which share the keys by their first byte. -/
def twoShards : Cluster where
  servers := [0, 1]
  findServer key := if key.head? = some 107 then 1 else 0
  placed key := by split <;> simp

/-- A key is added on each server, one is deleted, and all are flushed. -/
def shardedScript : List ScriptStep :=
  [.operation ⟨1, [107]⟩ (.store .add 0 0 [120]), .operation ⟨2, [106]⟩ (.store .add 0 0 [121]),
    .operation ⟨1, [107]⟩ .delete, .operation ⟨3, []⟩ (.flush 0), .operation ⟨2, [106]⟩ (.get false)]

end PeclMemcache
