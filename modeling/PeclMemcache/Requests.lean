import PeclMemcache.Failover
import PeclMemcache.TextGrammar

set_option autoImplicit false

/-! # Text requests are single commands

What an operation of the API appends to the send buffer under the text protocol, read back with the
grammar of the server. Keys, values and types come from the user and may hold any bytes; the words
of the line are kept apart by `mmc_prepare_key_ex`, which leaves no white space in a key. The sum of
the lengths of the prefix and of the key is computed in 32 bits; where it wraps to 0, the prepared
key is empty, and the line has a word less. -/

namespace PeclMemcache

/-! ## Operations -/

/-- The operations that send a text command, with the arguments of the encoders; keys are those of
    the user, `packed` is what `mmc_pack_value` made of the value and the flags. -/
inductive TextOperation
  | get (op : MmcOp) (keys : List Bytes)
  | store (op : MmcOp) (key : Bytes) (exptime cas : Nat) (packed : Option (Bytes × Nat))
  | delete (key : Bytes) (exptime : Nat)
  | mutate (key : Bytes) (value : Int)
  | flush (exptime : Nat)
  | version
  | stats (type : Option Bytes) (slabid limit : Int)

/-- `mmc_stats_checktype`. -/
def mmcStatsChecktype : Option Bytes → Bool
  | none => true
  | some type =>
    type = bytes ['r', 'e', 's', 'e', 't'] || type = bytes ['m', 'a', 'l', 'l', 'o', 'c']
      || type = bytes ['s', 'l', 'a', 'b', 's']
      || type = bytes ['c', 'a', 'c', 'h', 'e', 'd', 'u', 'm', 'p']
      || type = bytes ['i', 't', 'e', 'm', 's'] || type = bytes ['s', 'i', 'z', 'e', 's']

/-- The request once the command was put into it; `none` if the operation is refused before: no key
    is valid, the value cannot be packed or the type is unknown. Of a multi-key get, the keys that
    are not valid are skipped. -/
def TextOperation.encode (keyPrefix : Bytes) (q : MmcRequest) : TextOperation → Option MmcRequest
  | .get op keys =>
    match keys.filterMap fun key => mmcPrepareKeyEx key keyPrefix with
    | [] => none
    | keys => some (mmcAsciiEndGet (keys.foldl mmcAsciiAppendGet (mmcAsciiBeginGet q op)))
  | .store op key exptime cas packed =>
    match mmcPrepareKeyEx key keyPrefix with
    | none => none
    | some key =>
      match mmcAsciiStore q op key exptime cas packed with
      | (.done, q) => some q
      | _ => none
  | .delete key exptime =>
    (mmcPrepareKeyEx key keyPrefix).map fun key => mmcAsciiDelete q key exptime
  | .mutate key value => (mmcPrepareKeyEx key keyPrefix).map fun key => mmcAsciiMutate q key value
  | .flush exptime => some (mmcAsciiFlush q exptime)
  | .version => some (mmcAsciiVersion q)
  | .stats type slabid limit =>
    if mmcStatsChecktype type then some (mmcAsciiStats q type slabid limit) else none

/-- The keys of an operation, as the user gave them. -/
def TextOperation.keys : TextOperation → List Bytes
  | .get _ keys => keys
  | .store _ key _ _ _ => [key]
  | .delete key _ => [key]
  | .mutate key _ => [key]
  | _ => []

/-- The storage command of an operation on a prepared key. -/
def storeCommand (op : MmcOp) (key : Bytes) (flags exptime cas : Nat) (data : Bytes) :
    Option TextCommand :=
  match op with
  | .set => some (.store .set key flags exptime data)
  | .add => some (.store .add key flags exptime data)
  | .replace => some (.store .replace key flags exptime data)
  | .append => some (.store .append key flags exptime data)
  | .prepend => some (.store .prepend key flags exptime data)
  | .cas => some (.cas key flags exptime cas data)
  | .get => none
  | .gets => none

/-- The arguments of a stats command. -/
def statsArgs (type : Option Bytes) (slabid limit : Int) : List Bytes :=
  if slabid ≠ 0 then
    [type.getD (bytes ['(', 'n', 'u', 'l', 'l', ')']), decimalInt slabid, decimalInt limit]
  else type.toList

/-- The command an operation stands for: its prepared keys, its numbers and the packed value. -/
def TextOperation.command (keyPrefix : Bytes) : TextOperation → Option TextCommand
  | .get op keys =>
    some (.get (op = .gets) (keys.filterMap fun key => mmcPrepareKeyEx key keyPrefix))
  | .store op key exptime cas packed =>
    match mmcPrepareKeyEx key keyPrefix, packed with
    | some key, some (data, flags) => storeCommand op key flags exptime cas data
    | _, _ => none
  | .delete key exptime => (mmcPrepareKeyEx key keyPrefix).map fun key => .delete key exptime
  | .mutate key value =>
    (mmcPrepareKeyEx key keyPrefix).map fun key =>
      if 0 ≤ value then .incr key value.natAbs else .decr key value.natAbs
  | .flush exptime => some (.flushAll exptime)
  | .version => some .version
  | .stats type slabid limit => some (.stats (statsArgs type slabid limit))

/-- What was appended to the send buffer is the command of the operation and nothing else. -/
def TextOperation.SendsOne (op : TextOperation) (keyPrefix : Bytes) (q q' : MmcRequest) : Prop :=
  ∃ added command, q'.sendbuf.value = q.sendbuf.value ++ added ∧
    op.command keyPrefix = some command ∧ parseText added = some (command, [])

/-! ## Prepared keys -/

/-- **Prepared keys** hold no white space and are not too long; one is empty exactly when the sum of
    the lengths wraps to 0. -/
theorem mmcPrepareKeyEx_spec {key keyPrefix prepared : Bytes} (hshort : keyPrefix.length ≤ 250)
    (h : mmcPrepareKeyEx key keyPrefix = some prepared) :
    Plain prepared ∧ keyWord prepared = some prepared ∧
      (prepared = [] ↔ keyPrefix.length + key.length % 2 ^ 32 = 2 ^ 32) := by
  unfold mmcPrepareKeyEx at h
  dsimp only at h
  split at h
  · cases h
  · rename_i hlen
    cases h
    refine ⟨?_, ?_, ?_⟩
    · intro b hb
      obtain ⟨c, _, rfl⟩ := List.mem_map.mp (List.mem_of_mem_take hb)
      unfold keyByte
      split
      · assumption
      · decide
    · rw [keyWord, if_pos]
      rw [List.length_take, MMC_MAX_KEY_LEN, maxKeyLength]
      omega
    · have hmod := Nat.mod_le key.length (2 ^ 32)
      rw [← List.length_eq_zero_iff, List.length_take, List.length_map, List.length_append,
        MMC_MAX_KEY_LEN]
      omega

/-- A key that wraps is not refused. -/
theorem mmcPrepareKeyEx_of_wrap {key keyPrefix : Bytes} (hshort : keyPrefix.length ≤ 250)
    (h : keyPrefix.length + key.length % 2 ^ 32 = 2 ^ 32) :
    ∃ prepared, mmcPrepareKeyEx key keyPrefix = some prepared := by
  unfold mmcPrepareKeyEx
  dsimp only
  rw [if_neg (by omega)]
  exact ⟨_, rfl⟩

/-! ## One operation -/

/-- The bytes that were appended are determined, so it is enough to look at them. -/
theorem sendsOne_iff {op : TextOperation} {keyPrefix : Bytes} {q q' : MmcRequest} {text : Bytes}
    {command : TextCommand} (htext : q'.sendbuf.value = q.sendbuf.value ++ text)
    (hcommand : op.command keyPrefix = some command) :
    op.SendsOne keyPrefix q q' ↔ parseText text = some (command, []) := by
  constructor
  · rintro ⟨added, command', hadded, hcommand', hparse⟩
    rw [htext] at hadded
    rw [hcommand] at hcommand'
    cases hcommand'
    rw [List.append_cancel_left hadded]
    exact hparse
  · intro hparse
    exact ⟨text, command, htext, hcommand, hparse⟩

theorem foldl_mmcAsciiAppendGet_sendbuf (keys : List Bytes) (q : MmcRequest) :
    (keys.foldl mmcAsciiAppendGet q).sendbuf.value
      = q.sendbuf.value ++ keys.flatMap ((32 : UInt8) :: ·) := by
  induction keys generalizing q with
  | nil => simp
  | cons key keys ih =>
    rw [List.foldl_cons, ih, List.flatMap_cons]
    simp [mmcAsciiAppendGet, MmcRequest.appendSend]

theorem mapM_keyWord {keys : List Bytes} (h : ∀ key ∈ keys, keyWord key = some key) :
    keys.mapM keyWord = some keys := by
  induction keys with
  | nil => rfl
  | cons key keys ih =>
    rw [List.mapM_cons, h key List.mem_cons_self, ih fun k hk => h k (List.mem_cons_of_mem _ hk)]
    rfl

/-- The line of a delete, and what it is read as: an empty key is lost, and the time, if there is one,
    is taken for the key. -/
theorem mmcAsciiDelete_text (q : MmcRequest) (key : Bytes) (exptime : Nat) :
    (mmcAsciiDelete q key exptime).sendbuf.value = q.sendbuf.value ++
      (Words.join 32 (bytes ['d', 'e', 'l', 'e', 't', 'e'] :: key ::
        if exptime > 0 then [decimal exptime] else []) ++ crlf ++ []) := by
  unfold mmcAsciiDelete
  dsimp only
  split <;> simp [MmcRequest.appendSend, Words.join]

theorem parseText_delete {key : Bytes} (exptime : Nat) (hplain : Plain key)
    (hword : keyWord key = some key) :
    parseText (Words.join 32 (bytes ['d', 'e', 'l', 'e', 't', 'e'] :: key ::
        if exptime > 0 then [decimal exptime] else []) ++ crlf ++ [])
      = some (.delete key exptime, []) ↔ key ≠ [] := by
  have hverb : Plain (bytes ['d', 'e', 'l', 'e', 't', 'e']) := by decide
  have hparse : ∀ args rest, parseCommand (bytes ['d', 'e', 'l', 'e', 't', 'e']) args rest
      = parseDelete args rest := fun _ _ => rfl
  by_cases hexp : exptime > 0
  · rw [if_pos hexp, parseText_line (by decide) (by
      simpa using ⟨hverb, hplain, plain_decimal exptime⟩), hparse]
    by_cases hnil : key = []
    · -- the time is taken for the key
      subst hnil
      have hfilter : [[], decimal exptime].filter (fun v => v ≠ []) = [decimal exptime] := by
        simp [decimal_ne_nil]
      rw [hfilter]
      constructor
      · intro h
        obtain ⟨key, hkey, heq⟩ := Option.bind_eq_some_iff.mp h
        simp only [Option.some.injEq, Prod.mk.injEq, TextCommand.delete.injEq] at heq
        rw [← keyWord_eq_some hkey, heq.1.1] at hfilter
        exact absurd hfilter (by simp)
      · intro h
        exact absurd rfl h
    · simp [hnil, decimal_ne_nil, parseDelete, hword]
  · rw [if_neg hexp, parseText_line (by decide) (by simpa using ⟨hverb, hplain⟩), hparse]
    by_cases hnil : key = []
    · simp [hnil, parseDelete]
    · simp [hnil, parseDelete, hword, Nat.eq_zero_of_not_pos hexp]

theorem mmcAsciiMutate_text (q : MmcRequest) (key : Bytes) (value : Int) :
    (mmcAsciiMutate q key value).sendbuf.value = q.sendbuf.value ++
      (Words.join 32 [if 0 ≤ value then bytes ['i', 'n', 'c', 'r'] else bytes ['d', 'e', 'c', 'r'],
        key, decimal value.natAbs] ++ crlf ++ []) := by
  unfold mmcAsciiMutate
  dsimp only
  split <;> simp [MmcRequest.appendSend, Words.join, *]

theorem parseText_mutate {key : Bytes} (value : Int) (hplain : Plain key)
    (hword : keyWord key = some key) :
    parseText (Words.join 32 [if 0 ≤ value then bytes ['i', 'n', 'c', 'r']
        else bytes ['d', 'e', 'c', 'r'], key, decimal value.natAbs] ++ crlf ++ [])
      = some (if 0 ≤ value then .incr key value.natAbs else .decr key value.natAbs, [])
        ↔ key ≠ [] := by
  have hnumber := plain_decimal value.natAbs
  by_cases hvalue : 0 ≤ value
  · have hverb : Plain (bytes ['i', 'n', 'c', 'r']) := by decide
    have hparse : ∀ args rest, parseCommand (bytes ['i', 'n', 'c', 'r']) args rest
        = parseArithmetic .incr args rest := fun _ _ => rfl
    rw [if_pos hvalue, if_pos hvalue, parseText_line (by decide) (by
      simpa using ⟨hverb, hplain, hnumber⟩), hparse]
    by_cases hnil : key = []
    · simp [hnil, decimal_ne_nil, parseArithmetic]
    · simp [hnil, decimal_ne_nil, parseArithmetic, hword]
  · have hverb : Plain (bytes ['d', 'e', 'c', 'r']) := by decide
    have hparse : ∀ args rest, parseCommand (bytes ['d', 'e', 'c', 'r']) args rest
        = parseArithmetic .decr args rest := fun _ _ => rfl
    rw [if_neg hvalue, if_neg hvalue, parseText_line (by decide) (by
      simpa using ⟨hverb, hplain, hnumber⟩), hparse]
    by_cases hnil : key = []
    · simp [hnil, decimal_ne_nil, parseArithmetic]
    · simp [hnil, decimal_ne_nil, parseArithmetic, hword]

theorem mmcAsciiGet_text (q : MmcRequest) (op : MmcOp) (keys : List Bytes) :
    (mmcAsciiEndGet (keys.foldl mmcAsciiAppendGet (mmcAsciiBeginGet q op))).sendbuf.value
      = q.sendbuf.value ++ (Words.join 32 ((if op = .gets then bytes ['g', 'e', 't', 's']
        else bytes ['g', 'e', 't']) :: keys) ++ crlf ++ []) := by
  have hend : ∀ q, (mmcAsciiEndGet q).sendbuf.value = q.sendbuf.value ++ crlf := fun _ => rfl
  rw [hend, foldl_mmcAsciiAppendGet_sendbuf]
  unfold mmcAsciiBeginGet
  dsimp only
  split <;> simp [MmcRequest.appendSend, Words.join]

theorem parseGet_iff {keys : List Bytes} (withCas : Bool) (hne : keys ≠ [])
    (hword : ∀ key ∈ keys, keyWord key = some key) :
    parseGet withCas (keys.filter fun v => v ≠ []) [] = some (.get withCas keys, []) ↔
      ∀ key ∈ keys, key ≠ [] := by
  have hwords := @mapM_keyWord (keys.filter fun v => v ≠ [])
    fun key hkey => hword key (List.mem_of_mem_filter hkey)
  unfold parseGet
  rw [hwords]
  simp only [Option.bind_eq_bind, Option.bind_some]
  constructor
  · intro h
    split at h
    · cases h
    · simp only [Option.some.injEq, Prod.mk.injEq, TextCommand.get.injEq] at h
      simpa using List.filter_eq_self.mp h.1.2
  · intro h
    have hself : keys.filter (fun v => v ≠ []) = keys := by
      rw [List.filter_eq_self]
      simpa using h
    rw [hself, if_neg hne]

theorem parseText_get {keys : List Bytes} (op : MmcOp) (hne : keys ≠ [])
    (hplain : ∀ key ∈ keys, Plain key) (hword : ∀ key ∈ keys, keyWord key = some key) :
    parseText (Words.join 32 ((if op = .gets then bytes ['g', 'e', 't', 's']
        else bytes ['g', 'e', 't']) :: keys) ++ crlf ++ [])
      = some (.get (op = .gets) keys, []) ↔ ∀ key ∈ keys, key ≠ [] := by
  rw [← parseGet_iff (op = .gets) hne hword]
  by_cases hop : op = .gets
  · have hverb : Plain (bytes ['g', 'e', 't', 's']) := by decide
    rw [if_pos hop, parseText_line (by decide) (by simpa using ⟨hverb, hplain⟩), decide_eq_true hop]
    rfl
  · have hverb : Plain (bytes ['g', 'e', 't']) := by decide
    rw [if_neg hop, parseText_line (by decide) (by simpa using ⟨hverb, hplain⟩),
      decide_eq_false hop]
    rfl

theorem mmcAsciiStore_text (q : MmcRequest) {op : MmcOp} {word : Bytes} (key : Bytes)
    (exptime cas : Nat) (value : Bytes) (flags : Nat) (hop : asciiStoreCommand op = some word) :
    (mmcAsciiStore q op key exptime cas (some (value, flags))).1 = .done ∧
      (mmcAsciiStore q op key exptime cas (some (value, flags))).2.sendbuf.value
        = q.sendbuf.value ++ (Words.join 32 (word :: key :: decimal flags :: decimal exptime ::
          decimal value.length :: if op = .cas then [decimal cas] else []) ++ crlf
            ++ (value ++ crlf)) := by
  unfold mmcAsciiStore
  rw [hop]
  refine ⟨rfl, ?_⟩
  dsimp only
  split <;> simp [MmcRequest.appendSend, Words.join]

theorem parseText_store {op : MmcOp} {key word : Bytes} (exptime cas flags : Nat) (value : Bytes)
    (hplain : Plain key) (hword : keyWord key = some key) (hop : asciiStoreCommand op = some word) :
    parseText (Words.join 32 (word :: key :: decimal flags :: decimal exptime ::
          decimal value.length :: if op = .cas then [decimal cas] else []) ++ crlf
            ++ (value ++ crlf))
      = (storeCommand op key flags exptime cas value).map (·, []) ↔ key ≠ [] := by
  have hflags := plain_decimal flags
  have hexptime := plain_decimal exptime
  have hlength := plain_decimal value.length
  have hverb : word ≠ [] ∧ Plain word := by
    cases op <;> cases hop <;> decide
  by_cases hcas : op = .cas
  · subst hcas
    cases hop
    have hparse : ∀ args rest, parseCommand (bytes ['c', 'a', 's']) args rest
        = parseCas args rest := fun _ _ => rfl
    rw [if_pos rfl, parseText_line hverb.1 (by
      simpa using ⟨hverb.2, hplain, hflags, hexptime, hlength, plain_decimal cas⟩), hparse]
    by_cases hnil : key = []
    · simp [hnil, decimal_ne_nil, parseCas, storeCommand]
    · simp [hnil, decimal_ne_nil, parseCas, hword, storeCommand]
  · obtain ⟨verb, hcommand, hparse⟩ : ∃ verb,
        storeCommand op key flags exptime cas value = some (.store verb key flags exptime value) ∧
          ∀ args rest, parseCommand word args rest = parseStore verb args rest := by
      cases op <;> cases hop <;> first | exact ⟨_, rfl, fun _ _ => rfl⟩ | exact absurd rfl hcas
    rw [if_neg hcas, parseText_line hverb.1 (by
      simpa using ⟨hverb.2, hplain, hflags, hexptime, hlength⟩), hparse, hcommand]
    by_cases hnil : key = []
    · simp [hnil, decimal_ne_nil, parseStore]
    · simp [hnil, decimal_ne_nil, parseStore, hword]

theorem mmcAsciiFlush_text (q : MmcRequest) (exptime : Nat) :
    (mmcAsciiFlush q exptime).sendbuf.value = q.sendbuf.value ++
      (Words.join 32 (bytes ['f', 'l', 'u', 's', 'h', '_', 'a', 'l', 'l'] ::
        if exptime > 0 then [decimal exptime] else []) ++ crlf ++ []) := by
  unfold mmcAsciiFlush
  dsimp only
  split <;> simp [MmcRequest.appendSend, Words.join]

theorem parseText_flush (exptime : Nat) :
    parseText (Words.join 32 (bytes ['f', 'l', 'u', 's', 'h', '_', 'a', 'l', 'l'] ::
        if exptime > 0 then [decimal exptime] else []) ++ crlf ++ [])
      = some (.flushAll exptime, []) := by
  have hverb : Plain (bytes ['f', 'l', 'u', 's', 'h', '_', 'a', 'l', 'l']) := by decide
  have hparse : ∀ args rest, parseCommand (bytes ['f', 'l', 'u', 's', 'h', '_', 'a', 'l', 'l']) args
      rest = parseFlushAll args rest := fun _ _ => rfl
  by_cases hexp : exptime > 0
  · rw [if_pos hexp, parseText_line (by decide) (by
      simpa using ⟨hverb, plain_decimal exptime⟩), hparse]
    simp [decimal_ne_nil, parseFlushAll]
  · rw [if_neg hexp, parseText_line (by decide) (by simpa using hverb), hparse]
    simp [parseFlushAll, Nat.eq_zero_of_not_pos hexp]

theorem parseText_version :
    parseText (bytes ['v', 'e', 'r', 's', 'i', 'o', 'n'] ++ crlf) = some (.version, []) := by
  decide

theorem decimalInt_plain (n : Int) : Plain (decimalInt n) ∧ decimalInt n ≠ [] := by
  unfold decimalInt
  split
  · constructor
    · intro b hb
      have hsign : Plain (bytes ['-']) := by decide
      rcases List.mem_append.mp hb with hb | hb
      · exact hsign b hb
      · exact plain_decimal _ b hb
    · simp [decimal_ne_nil]
  · exact ⟨plain_decimal _, decimal_ne_nil _⟩

theorem mmcAsciiStats_text (q : MmcRequest) (type : Option Bytes) (slabid limit : Int) :
    (mmcAsciiStats q type slabid limit).sendbuf.value = q.sendbuf.value ++
      (Words.join 32 (bytes ['s', 't', 'a', 't', 's'] :: statsArgs type slabid limit) ++ crlf
        ++ []) := by
  unfold mmcAsciiStats statsArgs
  dsimp only
  split
  · simp [MmcRequest.appendSend, Words.join]
  · cases type <;> simp [MmcRequest.appendSend, Words.join]

/-- A checked type is a single word. -/
theorem mmcStatsChecktype_plain {type : Bytes} (h : mmcStatsChecktype (some type) = true) :
    Plain type ∧ type ≠ [] := by
  simp only [mmcStatsChecktype, Bool.or_eq_true, decide_eq_true_eq] at h
  rcases h with ((((h | h) | h) | h) | h) | h <;> subst h <;> decide

theorem parseText_stats {type : Option Bytes} (slabid limit : Int)
    (h : mmcStatsChecktype type = true) :
    parseText (Words.join 32 (bytes ['s', 't', 'a', 't', 's'] :: statsArgs type slabid limit) ++ crlf
        ++ [])
      = some (.stats (statsArgs type slabid limit), []) := by
  have hverb : Plain (bytes ['s', 't', 'a', 't', 's']) := by decide
  have htype : ∀ w ∈ type.toList, Plain w ∧ w ≠ [] := by
    cases type with
    | none => simp
    | some type => simpa using mmcStatsChecktype_plain h
  have hargs : ∀ w ∈ statsArgs type slabid limit, Plain w ∧ w ≠ [] := by
    unfold statsArgs
    split
    · have hfirst : Plain (type.getD (bytes ['(', 'n', 'u', 'l', 'l', ')'])) ∧
          type.getD (bytes ['(', 'n', 'u', 'l', 'l', ')']) ≠ [] := by
        cases type with
        | none => decide
        | some type => exact mmcStatsChecktype_plain h
      simpa using ⟨hfirst, decimalInt_plain slabid, decimalInt_plain limit⟩
    · exact htype
  have hfilter : (statsArgs type slabid limit).filter (fun v => v ≠ []) = statsArgs type slabid limit := by
    rw [List.filter_eq_self]
    intro w hw
    simpa using (hargs w hw).2
  rw [parseText_line (by decide) (by simpa using ⟨hverb, fun w hw => (hargs w hw).1⟩), hfilter]
  rfl

/-! ## Every operation -/

/-- **A text operation sends one command exactly when no key wraps**: what is appended to the send
    buffer is read by the server as one command, with no bytes left over, and that command carries
    the prepared keys, the numbers and the packed value, unless the lengths of the prefix and of a key
    add up to 2^32. -/
theorem sendsOne_iff_no_wrap {keyPrefix : Bytes} (hshort : keyPrefix.length ≤ 250)
    (op : TextOperation) {q q' : MmcRequest} (h : op.encode keyPrefix q = some q') :
    op.SendsOne keyPrefix q q' ↔
      ∀ key ∈ op.keys, keyPrefix.length + key.length % 2 ^ 32 ≠ 2 ^ 32 := by
  cases op with
  | get op keys =>
    have hspec : ∀ p ∈ keys.filterMap fun key => mmcPrepareKeyEx key keyPrefix,
        Plain p ∧ keyWord p = some p := by
      intro p hp
      obtain ⟨key, _, hkey⟩ := List.mem_filterMap.mp hp
      exact ⟨(mmcPrepareKeyEx_spec hshort hkey).1, (mmcPrepareKeyEx_spec hshort hkey).2.1⟩
    have hwrap : (∀ p ∈ keys.filterMap fun key => mmcPrepareKeyEx key keyPrefix, p ≠ []) ↔
        ∀ key ∈ keys, keyPrefix.length + key.length % 2 ^ 32 ≠ 2 ^ 32 := by
      constructor
      · intro hall key hkey hsum
        obtain ⟨p, hp⟩ := mmcPrepareKeyEx_of_wrap hshort hsum
        exact hall p (List.mem_filterMap.mpr ⟨key, hkey, hp⟩)
          ((mmcPrepareKeyEx_spec hshort hp).2.2.mpr hsum)
      · intro hall p hp hnil
        obtain ⟨key, hkey, hprep⟩ := List.mem_filterMap.mp hp
        exact hall key hkey ((mmcPrepareKeyEx_spec hshort hprep).2.2.mp hnil)
    simp only [TextOperation.encode] at h
    rw [TextOperation.keys, ← hwrap]
    split at h
    · cases h
    · rename_i prepared hne
      cases h
      rw [sendsOne_iff (mmcAsciiGet_text q op _) rfl]
      exact parseText_get op hne (fun p hp => (hspec p hp).1) fun p hp => (hspec p hp).2
  | store op key exptime cas packed =>
    simp only [TextOperation.encode] at h
    rcases hkey : mmcPrepareKeyEx key keyPrefix with _ | prepared
    · simp [hkey] at h
    · obtain ⟨hplain, hword, hnil⟩ := mmcPrepareKeyEx_spec hshort hkey
      simp only [hkey] at h
      rcases packed with _ | ⟨value, flags⟩
      · simp [mmcAsciiStore] at h
      · rcases hop : asciiStoreCommand op with _ | word
        · simp [mmcAsciiStore, hop] at h
        · obtain ⟨hdone, htext⟩ := mmcAsciiStore_text q prepared exptime cas value flags hop
          obtain ⟨command, hcommand⟩ : ∃ command,
              storeCommand op prepared flags exptime cas value = some command := by
            cases op <;> first | exact ⟨_, rfl⟩ | cases hop
          have hq : q' = (mmcAsciiStore q op prepared exptime cas (some (value, flags))).2 := by
            rw [show mmcAsciiStore q op prepared exptime cas (some (value, flags)) = (.done,
              (mmcAsciiStore q op prepared exptime cas (some (value, flags))).2) from
                Prod.ext hdone rfl] at h
            exact (Option.some.inj h).symm
          have hparse := parseText_store exptime cas flags value hplain hword hop
          rw [hcommand, Option.map_some] at hparse
          rw [← hq] at htext
          have hmeans : (TextOperation.store op key exptime cas (some (value, flags))).command keyPrefix
              = some command := by
            simp only [TextOperation.command, hkey, hcommand]
          rw [sendsOne_iff htext hmeans, hparse, ne_eq, hnil]
          simp [TextOperation.keys]
  | delete key exptime =>
    obtain ⟨prepared, hkey, rfl⟩ := Option.map_eq_some_iff.mp h
    obtain ⟨hplain, hword, hnil⟩ := mmcPrepareKeyEx_spec hshort hkey
    have hcommand : (TextOperation.delete key exptime).command keyPrefix
        = some (.delete prepared exptime) := by
      simp only [TextOperation.command, hkey, Option.map_some]
    rw [sendsOne_iff (mmcAsciiDelete_text q prepared exptime) hcommand,
      parseText_delete exptime hplain hword, ne_eq, hnil]
    simp [TextOperation.keys]
  | mutate key value =>
    obtain ⟨prepared, hkey, rfl⟩ := Option.map_eq_some_iff.mp h
    obtain ⟨hplain, hword, hnil⟩ := mmcPrepareKeyEx_spec hshort hkey
    have hcommand : (TextOperation.mutate key value).command keyPrefix
        = some (if 0 ≤ value then .incr prepared value.natAbs
          else .decr prepared value.natAbs) := by
      simp only [TextOperation.command, hkey, Option.map_some]
    rw [sendsOne_iff (mmcAsciiMutate_text q prepared value) hcommand,
      parseText_mutate value hplain hword, ne_eq, hnil]
    simp [TextOperation.keys]
  | flush exptime =>
    cases h
    rw [sendsOne_iff (mmcAsciiFlush_text q exptime) rfl]
    exact iff_of_true (parseText_flush exptime) (by simp [TextOperation.keys])
  | version =>
    cases h
    have htext : (mmcAsciiVersion q).sendbuf.value
        = q.sendbuf.value ++ (bytes ['v', 'e', 'r', 's', 'i', 'o', 'n'] ++ crlf) := rfl
    rw [sendsOne_iff htext rfl]
    exact iff_of_true parseText_version (by simp [TextOperation.keys])
  | stats type slabid limit =>
    simp only [TextOperation.encode] at h
    split at h
    · rename_i hchecked
      cases h
      rw [sendsOne_iff (mmcAsciiStats_text q type slabid limit) rfl]
      exact iff_of_true (parseText_stats slabid limit hchecked) (by simp [TextOperation.keys])
    · cases h

/-- A key with a line feed and a command behind it, stored with a prefix: one command. -/
theorem sendsOne_injected_key :
    (TextOperation.store .set (bytes ['a', ' ', '\r', '\n', 'q']) 60 0 (some ([13, 10], 0))).SendsOne
      (bytes ['p']) {}
      { sendbuf := { value := bytes "set pa___q 0 60 2\r\n\r\n\r\n".toList }
        parse := some .asciiParseResponse } :=
  (sendsOne_iff_no_wrap (by decide) (.store .set (bytes ['a', ' ', '\r', '\n', 'q']) 60 0
    (some ([13, 10], 0))) rfl).mpr (by decide)

/-- A key of 2^32 - 1 bytes and a prefix of one byte make an empty prepared key. -/
theorem mmcPrepareKeyEx_wrapped {key : Bytes} (h : key.length = 2 ^ 32 - 1) :
    mmcPrepareKeyEx key (bytes ['p']) = some [] := by
  have hsum : ((bytes ['p']).length + key.length % 2 ^ 32) % 2 ^ 32 = 0 := by
    rw [h]
    decide
  have hlen : ¬ key.length % 2 ^ 32 = 0 := by
    rw [h]
    decide
  unfold mmcPrepareKeyEx
  dsimp only
  rw [if_neg hlen, hsum]
  rfl

/-- The line of a get without a key is no command. -/
theorem get_not_sendsOne {key : Bytes} (h : mmcPrepareKeyEx key (bytes ['p']) = some []) :
    ∃ q', (TextOperation.get .get [key]).encode (bytes ['p']) {} = some q' ∧
      ¬ (TextOperation.get .get [key]).SendsOne (bytes ['p']) {} q' := by
  have hfilter : [key].filterMap (fun key => mmcPrepareKeyEx key (bytes ['p'])) = [[]] := by
    simp [h]
  refine ⟨mmcAsciiEndGet ([[]].foldl mmcAsciiAppendGet (mmcAsciiBeginGet {} .get)), ?_, ?_⟩
  · simp only [TextOperation.encode, hfilter]
  · have hcommand : (TextOperation.get .get [key]).command (bytes ['p']) = some (.get false [[]]) := by
      simp only [TextOperation.command, hfilter]
      rfl
    rw [sendsOne_iff (mmcAsciiGet_text {} .get [[]]) hcommand]
    decide

/-- A key of 2^32 - 1 bytes is asked for with a prefix of one byte. -/
theorem longKey_not_sendsOne :
    ∃ q', (TextOperation.get .get [List.replicate (2 ^ 32 - 1) 97]).encode (bytes ['p']) {} = some q' ∧
      ¬ (TextOperation.get .get [List.replicate (2 ^ 32 - 1) 97]).SendsOne (bytes ['p']) {} q' :=
  get_not_sendsOne (mmcPrepareKeyEx_wrapped List.length_replicate)

end PeclMemcache
