import PeclMemcache.MultiNumbers

set_option autoImplicit false

/-! # The keys of the results

Whether the arrays of multi-key operations depend on the protocol. They are the same exactly when the
keys that have results are sent as they are, no counter leaves the range of a PHP integer, and no
counter is created. -/

namespace PeclMemcache

open Writes

/-! ## The condition -/

/-- The operations that return an array. -/
inductive MultiOperation
  | get (withCas : Bool)
  | increment (args : MutateArgs)

section

variable (unpack : Nat → Bytes → Option Bytes) (keyPrefix : Bytes) (findServer : Bytes → Mmc)
  (servers : Mmc → Memcached) (keys : List ZKey)

/-- The operation can return the array. -/
def MultiOperation.Returns (p : WireProtocol) (array : ResultArray) : MultiOperation → Prop
  | .get withCas => MultiGet p unpack keyPrefix withCas findServer servers keys array
  | .increment args => MultiIncrement p unpack keyPrefix findServer args servers keys array

/-- The operation returns one array, under both protocols. -/
def MultiOperation.SameArray (op : MultiOperation) : Prop :=
  ∃ array, ∀ p a, op.Returns unpack keyPrefix findServer servers keys p a ↔ a = array

/-- The condition: every key that has a value is sent as it is; for an increment the counters end
    below `2 ^ 63`, and where a default was passed, there is nothing to create. -/
def MultiOperation.KeysKept : MultiOperation → Prop
  | .get _ => ∀ k ∈ validKeys keyPrefix keys,
    foundValue unpack (servers (findServer k.2)) k.2 ≠ none → k.2 = k.1.str
  | .increment args => ∀ k ∈ validKeys keyPrefix keys,
    (args.initial .binary ≠ none → (servers (findServer k.2)).items k.2 ≠ none) ∧
      ∀ item ∈ (servers (findServer k.2)).items k.2, ∀ n ∈ item.counter, k.2 = k.1.str ∧
        ((counterAfter args.value)^[(validKeys keyPrefix keys).countP fun k' => k'.2 = k.2] n).toNat
          < 2 ^ 63

/-- No key of the user is what is sent for another one, with a NUL behind it: the key refusals are
    entered under. -/
def MultiOperation.Unmasked : MultiOperation → Prop
  | .get _ => True
  | .increment _ => ∀ k ∈ validKeys keyPrefix keys, ∀ k' ∈ validKeys keyPrefix keys,
    k.1.str ≠ k'.2 ++ [0]

end

/-! ## Keys that are sent as they are -/

/-- A set covered by its image under a function that settles after `n` steps consists of fixed
    points. -/
theorem fixed_of_subset_image {α : Type} {f : α → α} {n : Nat} (hsettles : ∀ x, f^[n + 1] x = f^[n] x)
    {S : Set α} (hS : ∀ x ∈ S, ∃ y ∈ S, f y = x) : ∀ x ∈ S, f x = x := by
  have hback : ∀ m, ∀ x ∈ S, ∃ y ∈ S, f^[m] y = x := by
    intro m
    induction m with
    | zero => exact fun x hx => ⟨x, hx, rfl⟩
    | succ m ih =>
      intro x hx
      obtain ⟨y, hy, rfl⟩ := ih x hx
      obtain ⟨z, hz, rfl⟩ := hS y hy
      exact ⟨z, hz, rfl⟩
  intro x hx
  obtain ⟨y, -, rfl⟩ := hback n x hx
  rw [← Function.iterate_succ_apply' f n y, hsettles]

theorem keyByte_idem (b : UInt8) : keyByte (keyByte b) = keyByte b := by
  unfold keyByte
  by_cases hb : 32 < b
  · rw [if_pos hb, if_pos hb]
  · rw [if_neg hb]
    rfl

theorem map_keyByte_idem (s : Bytes) : (s.map keyByte).map keyByte = s.map keyByte := by
  rw [List.map_map]
  exact List.map_congr_left fun b _ => keyByte_idem b

/-- What is sent for a key of a length below `2 ^ 32 - 250`. -/
def sentFor (keyPrefix key : Bytes) : Bytes := ((keyPrefix ++ key).map keyByte).take MMC_MAX_KEY_LEN

theorem mmcPrepareKeyEx_of_short {key keyPrefix : Bytes} (hshort : keyPrefix.length ≤ 250)
    (hne : key ≠ []) (hlen : key.length ≤ MMC_MAX_KEY_LEN) :
    mmcPrepareKeyEx key keyPrefix = some (sentFor keyPrefix key) := by
  have hpos := List.length_pos_iff.mpr hne
  have hmax : key.length ≤ 250 := hlen
  have hmod : key.length % 2 ^ 32 = key.length := Nat.mod_eq_of_lt (by omega)
  have hsum : (keyPrefix.length + key.length) % 2 ^ 32 = keyPrefix.length + key.length :=
    Nat.mod_eq_of_lt (by omega)
  have hlength : ((keyPrefix ++ key).map keyByte).length = keyPrefix.length + key.length := by simp
  unfold mmcPrepareKeyEx
  dsimp only
  rw [hmod, if_neg (by omega), hsum, sentFor, ← hlength, Nat.min_comm, ← List.take_take,
    List.take_length]

theorem sentFor_map (keyPrefix key : Bytes) :
    (sentFor keyPrefix key).map keyByte = sentFor keyPrefix key := by
  rw [sentFor, List.map_take, map_keyByte_idem]

/-- With a prefix, each round makes one more byte independent of the key. -/
theorem sentFor_agree {keyPrefix : Bytes} (hne : keyPrefix ≠ []) (n : Nat) (x y : Bytes) :
    (((sentFor keyPrefix)^[n] x).map keyByte).take n
      = (((sentFor keyPrefix)^[n] y).map keyByte).take n := by
  induction n with
  | zero => rfl
  | succ n ih =>
    have hpos := List.length_pos_iff.mpr hne
    -- the first `n + 1` bytes are those of the prefix and at most `n` of the last key
    have hround : ∀ z : Bytes, ((sentFor keyPrefix z).map keyByte).take (n + 1)
        = ((keyPrefix.map keyByte) ++ (z.map keyByte).take n).take (min (n + 1) MMC_MAX_KEY_LEN) := by
      intro z
      have hle : min (n + 1) MMC_MAX_KEY_LEN - (keyPrefix.map keyByte).length ≤ n := by
        rw [List.length_map]
        omega
      rw [sentFor_map, sentFor, List.take_take, List.map_append, List.take_append, List.take_append,
        List.take_take, Nat.min_eq_left hle]
    rw [Function.iterate_succ_apply', Function.iterate_succ_apply', hround, hround, ih]

theorem sentFor_settles (keyPrefix x : Bytes) :
    (sentFor keyPrefix)^[250 + 1] x = (sentFor keyPrefix)^[250] x := by
  by_cases hne : keyPrefix = []
  · -- without a prefix the first round settles it
    have hidem : ∀ z, sentFor keyPrefix (sentFor keyPrefix z) = sentFor keyPrefix z := by
      intro z
      subst hne
      have hmap := sentFor_map [] z
      simp only [sentFor, List.nil_append] at hmap ⊢
      rw [hmap, List.take_take, Nat.min_self]
    rw [Function.iterate_succ_apply', Function.iterate_succ_apply' _ 249, hidem]
  · have hlast : ∀ z : Bytes, (((sentFor keyPrefix)^[250] z).map keyByte).take 250
        = (sentFor keyPrefix)^[250] z := by
      intro z
      rw [Function.iterate_succ_apply' _ 249, sentFor_map, sentFor, List.take_take]
      rfl
    have hagree := sentFor_agree hne 250 (sentFor keyPrefix x) x
    rw [hlast, hlast] at hagree
    rw [Function.iterate_succ_apply, hagree]

/-- **Keys covered by what is sent for them** are sent as they are. -/
theorem prepared_of_covered {keyPrefix : Bytes} (hshort : keyPrefix.length ≤ 250) {S : Set Bytes}
    (hvalid : ∀ x ∈ S, mmcPrepareKeyEx x keyPrefix ≠ none)
    (hS : ∀ x ∈ S, ∃ y ∈ S, mmcPrepareKeyEx y keyPrefix = some x) :
    ∀ x ∈ S, mmcPrepareKeyEx x keyPrefix = some x := by
  have hsent : ∀ x ∈ S, mmcPrepareKeyEx x keyPrefix = some (sentFor keyPrefix x) := by
    intro x hx
    obtain ⟨y, -, hy⟩ := hS x hx
    have hlen := keyWord_length (mmcPrepareKeyEx_spec hshort hy).2.1
    refine mmcPrepareKeyEx_of_short hshort ?_ hlen
    rintro rfl
    exact hvalid [] hx rfl
  have hfixed := @fixed_of_subset_image _ (sentFor keyPrefix) 250 (sentFor_settles keyPrefix) S
    fun x hx => by
      obtain ⟨y, hy, heq⟩ := hS x hx
      rw [hsent y hy] at heq
      exact ⟨y, hy, Option.some.inj heq⟩
  intro x hx
  rw [hsent x hx, hfixed x hx]

/-! ## Counters -/

/-- What an increment sees of a key: nothing, an item that is no counter, or a counter. -/
def counterView (findServer : Bytes → Mmc) (servers : Mmc → Memcached) (x : Bytes) :
    Option (Option UInt64) :=
  ((servers (findServer x)).items x).map Item.counter

/-- The outcome of an increment, and what it leaves. -/
def MutateArgs.step (args : MutateArgs) (p : WireProtocol) :
    Option (Option UInt64) → Outcome × Option (Option UInt64)
  | some (some n) =>
    (.number (counterAfter args.value n), some (some (counterAfter args.value n)))
  | some none => (.nonNumeric, some none)
  | none =>
    match args.initial p with
    | some n => (.number n, some (some n))
    | none => (.notFound, none)

theorem put_decimal (s : Memcached) (key : Bytes) (flags : UInt32) (n : UInt64) :
    ((s.put key flags (decimal n.toNat)).2.items key).map Item.counter = some (some n) ∧
      ∀ y ≠ key, (s.put key flags (decimal n.toNat)).2.items y = s.items y := by
  have hlen := length_decimal_le n.toNat_lt
  have hsmall : (decimal n.toNat).length ≤ itemLimit := by
    rw [itemLimit]
    omega
  unfold Memcached.put
  rw [dif_pos hsmall]
  constructor
  · simp [Item.counter, number_decimal, n.toNat_lt]
  · intro y hy
    exact Function.update_of_ne hy _ _

/-- **What an increment does** to the key and to the others. -/
theorem execute_step (args : MutateArgs) (p : WireProtocol) (s : Memcached) (key : Bytes) :
    (s.execute (args.command p key)).1 = (args.step p ((s.items key).map Item.counter)).1 ∧
      ((s.execute (args.command p key)).2.items key).map Item.counter
        = (args.step p ((s.items key).map Item.counter)).2 ∧
      ∀ y ≠ key, (s.execute (args.command p key)).2.items y = s.items y := by
  have hchange : s.execute (args.command p key)
      = s.change key (counterAfter args.value) (args.initial p) := by
    unfold MutateArgs.command counterAfter
    split <;> rfl
  rw [hchange]
  unfold Memcached.change
  cases hitem : s.items key with
  | none =>
    simp only [Option.map_none, MutateArgs.step]
    cases args.initial p with
    | none => exact ⟨rfl, by rw [hitem]; rfl, fun _ _ => rfl⟩
    | some n =>
      obtain ⟨hkey, hothers⟩ := put_decimal s key 0 n
      exact ⟨rfl, hkey, hothers⟩
  | some item =>
    simp only [Option.map_some]
    cases hcounter : item.counter with
    | none => exact ⟨rfl, by rw [hitem, Option.map_some, hcounter]; rfl, fun _ _ => rfl⟩
    | some n =>
      obtain ⟨hkey, hothers⟩ := put_decimal s key item.flags (counterAfter args.value n)
      exact ⟨rfl, hkey, hothers⟩

/-- The entries, from what the increments see. -/
def viewEntries (p : WireProtocol) (findServer : Bytes → Mmc) (args : MutateArgs) :
    (Bytes → Option (Option UInt64)) → List (ZKey × Bytes) → List (Mmc × Bytes × ArrayValue)
  | _, [] => []
  | view, k :: ks => (findServer k.2, numericEntry p k (args.step p (view k.2)).1) ::
      viewEntries p findServer args (Function.update view k.2 (args.step p (view k.2)).2) ks

theorem numericEntries_eq (p : WireProtocol) (findServer : Bytes → Mmc) (args : MutateArgs)
    (servers : Mmc → Memcached) (ks : List (ZKey × Bytes)) :
    numericEntries p findServer args servers ks
      = viewEntries p findServer args (counterView findServer servers) ks := by
  induction ks generalizing servers with
  | nil => rfl
  | cons k ks ih =>
    obtain ⟨houtcome, hkey, hothers⟩ := execute_step args p (servers (findServer k.2)) k.2
    rw [numericEntries, viewEntries, ih, houtcome]
    refine congrArg₂ List.cons rfl (congrArg (viewEntries p findServer args · ks) ?_)
    funext x
    by_cases hx : x = k.2
    · subst hx
      rw [Function.update_self, counterView, Function.update_self]
      exact hkey
    · rw [Function.update_of_ne hx, counterView, counterView]
      by_cases hserver : findServer x = findServer k.2
      · rw [hserver, Function.update_self, hothers x hx]
      · rw [Function.update_of_ne hserver]

/-! ## Entries -/

/-- What the entry of a key is entered under, if nothing is created. -/
def entryKey (p : WireProtocol) (view : Bytes → Option (Option UInt64)) (k : ZKey × Bytes) : Bytes :=
  match view k.2 with
  | some (some _) => resultKey p k
  | _ => k.2 ++ [0]

/-- A number as a PHP integer. -/
def phpLong (p : WireProtocol) (n : UInt64) : Int :=
  match p with
  | .ascii => strtol false n.toNat
  | .binary => zendLong n.toNat

theorem numericEntry_number (p : WireProtocol) (k : ZKey × Bytes) (n : UInt64) :
    numericEntry p k (.number n) = (resultKey p k, .long (phpLong p n)) := by
  cases p <;> rfl

/-- The two conversions agree below `2 ^ 63` only. -/
theorem phpLong_eq_iff (n : UInt64) : phpLong .ascii n = phpLong .binary n ↔ n.toNat < 2 ^ 63 := by
  have hn := n.toNat_lt
  have hascii : phpLong .ascii n = min (n.toNat : Int) (2 ^ 63 - 1) := rfl
  have hbinary : phpLong .binary n = if n.toNat < 2 ^ 63 then (n.toNat : Int)
      else (n.toNat : Int) - 2 ^ 64 := rfl
  rw [hascii, hbinary]
  split <;> omega

section Entries

variable {p : WireProtocol} {findServer : Bytes → Mmc} {args : MutateArgs}
  {view : Bytes → Option (Option UInt64)} {k : ZKey × Bytes}

/-- An increment that creates nothing changes the value of a counter at most. -/
theorem update_step_eq (hcreate : args.initial p ≠ none → view k.2 ≠ none) (x : Bytes) :
    (view x = none ↔ Function.update view k.2 (args.step p (view k.2)).2 x = none) ∧
      (view x = some none ↔ Function.update view k.2 (args.step p (view k.2)).2 x = some none) := by
  by_cases hx : x = k.2
  · subst hx
    rw [Function.update_self]
    rcases hview : view k.2 with _ | _ | n
    · have hinitial : args.initial p = none := not_not.mp fun h => hcreate h hview
      simp [MutateArgs.step, hinitial]
    · simp [MutateArgs.step]
    · simp [MutateArgs.step]
  · rw [Function.update_of_ne hx]
    exact ⟨Iff.rfl, Iff.rfl⟩

/-- A counter was one before. -/
theorem counter_of_update (hcreate : args.initial p ≠ none → view k.2 ≠ none) {x : Bytes} {n : UInt64}
    (h : Function.update view k.2 (args.step p (view k.2)).2 x = some (some n)) :
    ∃ m, view x = some (some m) := by
  obtain ⟨hnone, hplain⟩ := update_step_eq hcreate x
  rcases hbefore : view x with _ | _ | m
  · rw [hnone.mp hbefore] at h
    cases h
  · rw [hplain.mp hbefore] at h
    cases h
  · exact ⟨m, rfl⟩

theorem entryKey_update (hcreate : args.initial p ≠ none → view k.2 ≠ none) (p' : WireProtocol)
    (k' : ZKey × Bytes) :
    entryKey p' (Function.update view k.2 (args.step p (view k.2)).2) k' = entryKey p' view k' := by
  obtain ⟨hnone, hplain⟩ := update_step_eq hcreate k'.2
  unfold entryKey
  rcases hview : view k'.2 with _ | _ | n
  · rw [hnone.mp hview]
  · rw [hplain.mp hview]
  · rcases hafter : Function.update view k.2 (args.step p (view k.2)).2 k'.2 with _ | _ | n'
    · exact absurd (hview.symm.trans (hnone.mpr hafter)) (by simp)
    · exact absurd (hview.symm.trans (hplain.mpr hafter)) (by simp)
    · rfl

/-- **The servers and keys of the entries.** -/
theorem viewEntries_keys {ks : List (ZKey × Bytes)}
    (hcreate : ∀ k ∈ ks, args.initial p ≠ none → view k.2 ≠ none) :
    (viewEntries p findServer args view ks).map (fun e => (e.1, e.2.1))
      = ks.map fun k => (findServer k.2, entryKey p view k) := by
  induction ks generalizing view with
  | nil => rfl
  | cons k ks ih =>
    have hhead := hcreate k List.mem_cons_self
    have htail := @ih (Function.update view k.2 (args.step p (view k.2)).2)
      fun k' hk' hinitial hnone => hcreate k' (List.mem_cons_of_mem _ hk') hinitial
        ((update_step_eq hhead k'.2).1.mpr hnone)
    rw [viewEntries, List.map_cons, List.map_cons, htail]
    refine congrArg₂ List.cons (congrArg (Prod.mk _) ?_) ?_
    · unfold entryKey
      rcases hview : view k.2 with _ | _ | n
      · have hinitial : args.initial p = none := not_not.mp fun h => hhead h hview
        simp [MutateArgs.step, hinitial, numericEntry]
      · rfl
      · rw [MutateArgs.step, numericEntry_number]
    · exact List.map_congr_left fun k' _ => by rw [entryKey_update hhead]

/-- **The last value of a counter** is the one after all increments of it. -/
theorem writeAll_viewEntries {ks : List (ZKey × Bytes)} {x : Bytes} {n : UInt64}
    (hview : view x = some (some n)) (hx : 0 ∉ x)
    (hcreate : ∀ k ∈ ks, args.initial p ≠ none → view k.2 ≠ none)
    (hfixed : ∀ k ∈ ks, ∀ n, view k.2 = some (some n) → resultKey p k = k.2) :
    writeAll ((viewEntries p findServer args view ks).map Prod.snd) x
      = if ks.countP (fun k => k.2 = x) = 0 then none
        else some (.long (phpLong p ((counterAfter args.value)^[ks.countP fun k => k.2 = x] n))) := by
  induction ks generalizing view n with
  | nil => rfl
  | cons k ks ih =>
    have hhead := hcreate k List.mem_cons_self
    have hcreate' : ∀ k' ∈ ks, args.initial p ≠ none →
        Function.update view k.2 (args.step p (view k.2)).2 k'.2 ≠ none := by
      intro k' hk' hinitial hnone
      exact hcreate k' (List.mem_cons_of_mem _ hk') hinitial ((update_step_eq hhead k'.2).1.mpr hnone)
    have hfixed' : ∀ k' ∈ ks, ∀ n, Function.update view k.2 (args.step p (view k.2)).2 k'.2
        = some (some n) → resultKey p k' = k'.2 := by
      intro k' hk' n' hn'
      obtain ⟨m, hm⟩ := counter_of_update hhead hn'
      exact hfixed k' (List.mem_cons_of_mem _ hk') m hm
    rw [viewEntries, List.map_cons, writeAll_cons, List.countP_cons]
    by_cases hk : k.2 = x
    · subst hk
      have hkey := hfixed k List.mem_cons_self n hview
      have hafter : Function.update view k.2 (args.step p (view k.2)).2 k.2
          = some (some (counterAfter args.value n)) := by
        rw [Function.update_self, hview, MutateArgs.step]
      rw [ih hafter hcreate' hfixed', hview, MutateArgs.step, numericEntry_number, hkey]
      by_cases hmore : ks.countP (fun k' => k'.2 = k.2) = 0
      · simp [hmore]
      · simp [hmore]
    · have hafter : Function.update view k.2 (args.step p (view k.2)).2 x = some (some n) := by
        rw [Function.update_of_ne (Ne.symm hk), hview]
      have hother : (numericEntry p k (args.step p (view k.2)).1).1 ≠ x := by
        rcases hbefore : view k.2 with _ | _ | m
        · have hinitial : args.initial p = none := not_not.mp fun h => hhead h hbefore
          simp only [MutateArgs.step, hinitial, numericEntry]
          rintro rfl
          simp at hx
        · simp only [MutateArgs.step, numericEntry]
          rintro rfl
          simp at hx
        · rw [MutateArgs.step, numericEntry_number, hfixed k List.mem_cons_self m hbefore]
          exact hk
      have hzero : (if decide (k.2 = x) = true then 1 else 0) = 0 := if_neg (by simpa using hk)
      rw [ih hafter hcreate' hfixed', if_neg hother, Option.or_none, hzero, Nat.add_zero]

/-- Away from the counters, the entries are the same under both protocols. -/
theorem writeAll_viewEntries_other {ks : List (ZKey × Bytes)} {x : Bytes}
    (hview : ∀ k ∈ ks, k.2 = x → ∀ n, view x ≠ some (some n))
    (hcreate : ∀ k ∈ ks, args.initial .binary ≠ none → view k.2 ≠ none)
    (hfixed : ∀ k ∈ ks, ∀ n, view k.2 = some (some n) → k.1.str = k.2) :
    writeAll ((viewEntries .ascii findServer args view ks).map Prod.snd) x
      = writeAll ((viewEntries .binary findServer args view ks).map Prod.snd) x := by
  induction ks generalizing view with
  | nil => rfl
  | cons k ks ih =>
    have hhead := hcreate k List.mem_cons_self
    have hsame : args.step .ascii (view k.2) = args.step .binary (view k.2) := by
      rcases hbefore : view k.2 with _ | _ | n
      · have hinitial : args.initial .binary = none := not_not.mp fun h => hhead h hbefore
        have hascii : args.initial .ascii = none := rfl
        simp only [MutateArgs.step, hinitial, hascii]
      · rfl
      · rfl
    have hview' : ∀ k' ∈ ks, k'.2 = x →
        ∀ n, Function.update view k.2 (args.step .binary (view k.2)).2 x ≠ some (some n) := by
      intro k' hk' hx n hn
      obtain ⟨m, hm⟩ := counter_of_update hhead hn
      exact hview k' (List.mem_cons_of_mem _ hk') hx m hm
    have htail := @ih (Function.update view k.2 (args.step .binary (view k.2)).2) hview'
      (fun k' hk' hinitial hnone => hcreate k' (List.mem_cons_of_mem _ hk') hinitial
        ((update_step_eq hhead k'.2).1.mpr hnone)) (by
      intro k' hk' n' hn'
      obtain ⟨m, hm⟩ := counter_of_update hhead hn'
      exact hfixed k' (List.mem_cons_of_mem _ hk') m hm)
    rw [viewEntries, viewEntries, List.map_cons, List.map_cons, writeAll_cons, writeAll_cons, hsame,
      htail]
    refine congrArg (Option.or _) ?_
    rcases hbefore : view k.2 with _ | _ | n
    · have hinitial : args.initial .binary = none := not_not.mp fun h => hhead h hbefore
      simp only [MutateArgs.step, hinitial, numericEntry]
    · rfl
    · have hne : k.2 ≠ x := by
        rintro rfl
        exact hview k List.mem_cons_self rfl n hbefore
      have hne' : k.1.str ≠ x := by
        rw [hfixed k List.mem_cons_self n hbefore]
        exact hne
      simp only [MutateArgs.step, numericEntry_number]
      exact (if_neg hne).trans (if_neg hne').symm

end Entries

/-! ## When the arrays are the same -/

section Same

variable {unpack : Nat → Bytes → Option Bytes} {keyPrefix : Bytes} {findServer : Bytes → Mmc}
  {servers : Mmc → Memcached} {keys : List ZKey}

/-- A key is sent as it is if what is sent for it is the key. -/
theorem sent_eq_iff {k : ZKey × Bytes} (hk : k ∈ validKeys keyPrefix keys) :
    k.2 = k.1.str ↔ mmcPrepareKeyEx k.1.str keyPrefix = some k.1.str := by
  rw [(mem_validKeys.mp hk).2, Option.some.injEq]

/-- **The array of a get** is the same exactly when the keys that are found are sent as they are. -/
theorem sameArray_get_iff (h : KeysFit keyPrefix keys) (withCas : Bool) :
    (MultiOperation.get withCas).SameArray unpack keyPrefix findServer servers keys ↔
      (MultiOperation.get withCas).KeysKept unpack keyPrefix findServer servers keys := by
  have hreturns := fun p a => @multiGet_iff unpack keyPrefix withCas findServer servers keys h p a
  simp only [MultiOperation.SameArray, MultiOperation.Returns, MultiOperation.KeysKept, hreturns]
  constructor
  · rintro ⟨array, harray⟩
    have hsame := ((harray .ascii _).mp rfl).trans ((harray .binary _).mp rfl).symm
    -- the keys of the user that are found, each entered by the text protocol too
    let found : Set Bytes := {x | ∃ k ∈ validKeys keyPrefix keys,
      foundValue unpack (servers (findServer k.2)) k.2 ≠ none ∧ k.1.str = x}
    have hcovered : ∀ x ∈ found, ∃ y ∈ found, mmcPrepareKeyEx y keyPrefix = some x := by
      rintro x ⟨k, hk, hfound, rfl⟩
      obtain ⟨v, hv⟩ := Option.ne_none_iff_exists'.mp hfound
      have hentry : (k.1.str, v) ∈ getEntries .binary unpack (fun key => servers (findServer key))
          (validKeys keyPrefix keys) := mem_getEntries.mpr ⟨k, hk, hv, rfl⟩
      rw [← writeAll_eq_some_iff (getEntries_agree .binary _), ← hsame,
        writeAll_eq_some_iff (getEntries_agree .ascii _)] at hentry
      obtain ⟨k', hk', hv', hkey⟩ := mem_getEntries.mp hentry
      refine ⟨k'.1.str, ⟨k', hk', by rw [hv']; simp, rfl⟩, ?_⟩
      rw [(mem_validKeys.mp hk').2]
      exact congrArg some hkey
    have hvalid : ∀ x ∈ found, mmcPrepareKeyEx x keyPrefix ≠ none := by
      rintro x ⟨k, hk, -, rfl⟩
      rw [(mem_validKeys.mp hk).2]
      simp
    intro k hk hfound
    exact (sent_eq_iff hk).mpr
      (prepared_of_covered h.prefixShort hvalid hcovered _ ⟨k, hk, hfound, rfl⟩)
  · intro hkept
    refine ⟨writeAll (getEntries .ascii unpack (fun key => servers (findServer key))
      (validKeys keyPrefix keys)), fun p a => ?_⟩
    have hentries : getEntries p unpack (fun key => servers (findServer key)) (validKeys keyPrefix keys)
        = getEntries .ascii unpack (fun key => servers (findServer key)) (validKeys keyPrefix keys) := by
      refine List.filterMap_congr fun k hk => ?_
      cases hv : foundValue unpack (servers (findServer k.2)) k.2 with
      | none => rfl
      | some v =>
        have hkey := hkept k hk (by rw [hv]; simp)
        cases p with
        | ascii => rfl
        | binary => simp [resultKey, hkey]
    rw [hentries]

theorem counterView_eq_some (x : Bytes) (n : UInt64) :
    counterView findServer servers x = some (some n) ↔
      ∃ item ∈ (servers (findServer x)).items x, n ∈ item.counter := by
  simp [counterView, Option.map_eq_some_iff]

theorem counterView_eq_none (x : Bytes) :
    counterView findServer servers x = none ↔ (servers (findServer x)).items x = none := by
  simp [counterView]

theorem initial_ascii (args : MutateArgs) : args.initial .ascii = none := rfl

theorem not_mem_of_plain {key : Bytes} (h : Plain key) : 0 ∉ key :=
  fun hmem => absurd (h 0 hmem) (by decide)

/-- What is entered under the same key comes from the same server, where counters are entered under
    what is sent. -/
theorem numericEntries_owner (h : KeysFit keyPrefix keys) {p : WireProtocol} {args : MutateArgs}
    (hcreate : ∀ k ∈ validKeys keyPrefix keys, args.initial p ≠ none →
      counterView findServer servers k.2 ≠ none)
    (hfixed : ∀ k ∈ validKeys keyPrefix keys, ∀ n, counterView findServer servers k.2 = some (some n) →
      resultKey p k = k.2) :
    ∀ e ∈ numericEntries p findServer args servers (validKeys keyPrefix keys),
      ∀ e' ∈ numericEntries p findServer args servers (validKeys keyPrefix keys),
        e.2.1 = e'.2.1 → e.1 = e'.1 := by
  have hkey : ∀ e ∈ numericEntries p findServer args servers (validKeys keyPrefix keys),
      ∃ k ∈ validKeys keyPrefix keys, e.1 = findServer k.2 ∧ (e.2.1 = k.2 ∨ e.2.1 = k.2 ++ [0]) := by
    intro e he
    rw [numericEntries_eq] at he
    have hmem := List.mem_map_of_mem (f := fun e : Mmc × Bytes × ArrayValue => (e.1, e.2.1)) he
    rw [viewEntries_keys hcreate] at hmem
    obtain ⟨k, hk, heq⟩ := List.mem_map.mp hmem
    simp only [Prod.mk.injEq] at heq
    refine ⟨k, hk, heq.1.symm, ?_⟩
    rw [← heq.2, entryKey]
    split
    · rename_i n hview
      exact Or.inl (hfixed k hk n hview)
    · exact Or.inr rfl
  intro e he e' he' hsame
  obtain ⟨k, hk, hserver, hwhere⟩ := hkey e he
  obtain ⟨k', hk', hserver', hwhere'⟩ := hkey e' he'
  have hnul : 0 ∉ k.2 := not_mem_of_plain (h.sent hk).1
  have hnul' : 0 ∉ k'.2 := not_mem_of_plain (h.sent hk').1
  have heq : k.2 = k'.2 := by
    rcases hwhere with hw | hw <;> rcases hwhere' with hw' | hw' <;> rw [hw, hw'] at hsame
    · exact hsame
    · rw [hsame] at hnul
      simp at hnul
    · rw [← hsame] at hnul'
      simp at hnul'
    · exact List.append_cancel_right hsame
  rw [hserver, hserver', heq]

/-- **The condition is enough** for an increment. -/
theorem sameArray_increment (h : KeysFit keyPrefix keys) (args : MutateArgs)
    (hkept : (MultiOperation.increment args).KeysKept unpack keyPrefix findServer servers keys) :
    (MultiOperation.increment args).SameArray unpack keyPrefix findServer servers keys := by
  have hcreate : ∀ k ∈ validKeys keyPrefix keys, args.initial .binary ≠ none →
      counterView findServer servers k.2 ≠ none := by
    intro k hk hinitial hview
    exact (hkept k hk).1 hinitial ((counterView_eq_none k.2).mp hview)
  have hcounter : ∀ k ∈ validKeys keyPrefix keys, ∀ n,
      counterView findServer servers k.2 = some (some n) → k.2 = k.1.str ∧
        ((counterAfter args.value)^[(validKeys keyPrefix keys).countP fun k' => k'.2 = k.2] n).toNat
          < 2 ^ 63 := by
    intro k hk n hview
    obtain ⟨item, hitem, hn⟩ := (counterView_eq_some k.2 n).mp hview
    exact (hkept k hk).2 item hitem n hn
  have hcreate' : ∀ p, ∀ k ∈ validKeys keyPrefix keys, args.initial p ≠ none →
      counterView findServer servers k.2 ≠ none := by
    intro p
    cases p with
    | ascii => exact fun k _ hinitial => absurd (initial_ascii args) hinitial
    | binary => exact hcreate
  have hfixed : ∀ p, ∀ k ∈ validKeys keyPrefix keys, ∀ n,
      counterView findServer servers k.2 = some (some n) → resultKey p k = k.2 := by
    intro p k hk n hview
    cases p with
    | ascii => rfl
    | binary => exact (hcounter k hk n hview).1.symm
  -- in the order of the keys, both protocols return the same array
  have hsame : writeAll ((numericEntries .ascii findServer args servers
        (validKeys keyPrefix keys)).map Prod.snd)
      = writeAll ((numericEntries .binary findServer args servers
        (validKeys keyPrefix keys)).map Prod.snd) := by
    rw [numericEntries_eq, numericEntries_eq]
    funext x
    by_cases hx : ∃ k ∈ validKeys keyPrefix keys, k.2 = x ∧
        ∃ n, counterView findServer servers x = some (some n)
    · obtain ⟨k, hk, rfl, n, hview⟩ := hx
      have hnul := not_mem_of_plain (h.sent hk).1
      rw [writeAll_viewEntries hview hnul (hcreate' .ascii) (hfixed .ascii),
        writeAll_viewEntries hview hnul (hcreate' .binary) (hfixed .binary),
        (phpLong_eq_iff _).mpr (hcounter k hk n hview).2]
    · refine writeAll_viewEntries_other ?_ hcreate fun k hk n hview => (hcounter k hk n hview).1.symm
      intro k hk heq n hview
      exact hx ⟨k, hk, heq, n, hview⟩
  refine ⟨writeAll ((numericEntries .ascii findServer args servers
    (validKeys keyPrefix keys)).map Prod.snd), fun p a => ?_⟩
  have hinOrder : writeAll ((numericEntries p findServer args servers
        (validKeys keyPrefix keys)).map Prod.snd)
      = writeAll ((numericEntries .ascii findServer args servers
        (validKeys keyPrefix keys)).map Prod.snd) := by
    cases p with
    | ascii => rfl
    | binary => exact hsame.symm
  constructor
  · intro hrun
    obtain ⟨entries, rfl, horder⟩ := MultiIncrement.entries h hrun
    rw [← hinOrder]
    exact (writeAll_sources horder (numericEntries_owner h (hcreate' p) (hfixed p))).symm
  · rintro rfl
    rw [← hinOrder]
    exact multiIncrement_inOrder h

/-- Where missing counters are created, what is entered under a key with a NUL is a refusal of an item
    that is no counter. -/
theorem viewEntries_created {args : MutateArgs} {p : WireProtocol} (hinitial : args.initial p ≠ none)
    {view : Bytes → Option (Option UInt64)} {ks : List (ZKey × Bytes)} {y : Bytes}
    {e : Mmc × Bytes × ArrayValue} (he : e ∈ viewEntries p findServer args view ks)
    (hkey : e.2.1 = y ++ [0]) :
    (∃ k ∈ ks, resultKey p k = y ++ [0]) ∨ view y = some none := by
  obtain ⟨n₀, hn₀⟩ := Option.ne_none_iff_exists'.mp hinitial
  induction ks generalizing view with
  | nil => cases he
  | cons k ks ih =>
    rcases List.mem_cons.mp he with rfl | he
    · rcases hview : view k.2 with _ | _ | n
      · rw [hview, MutateArgs.step, hn₀] at hkey
        exact Or.inl ⟨k, List.mem_cons_self, by rw [← hkey, numericEntry_number]⟩
      · rw [hview] at hkey
        have heq : k.2 = y := List.append_cancel_right hkey
        rw [← heq]
        exact Or.inr hview
      · rw [hview, MutateArgs.step] at hkey
        exact Or.inl ⟨k, List.mem_cons_self, by rw [← hkey, numericEntry_number]⟩
    · rcases ih he with ⟨k', hk', heq⟩ | hafter
      · exact Or.inl ⟨k', List.mem_cons_of_mem _ hk', heq⟩
      · right
        by_cases hy : y = k.2
        · subst hy
          rw [Function.update_self] at hafter
          rcases hview : view k.2 with _ | _ | n
          · rw [hview, MutateArgs.step, hn₀] at hafter
            cases hafter
          · rfl
          · rw [hview, MutateArgs.step] at hafter
            cases hafter
        · rwa [Function.update_of_ne hy] at hafter

/-- **The condition is necessary** for an increment whose refusals are entered under keys of their
    own. -/
theorem keysKept_increment (h : KeysFit keyPrefix keys) (args : MutateArgs)
    (hunmasked : (MultiOperation.increment args).Unmasked keyPrefix keys)
    (hsame : (MultiOperation.increment args).SameArray unpack keyPrefix findServer servers keys) :
    (MultiOperation.increment args).KeysKept unpack keyPrefix findServer servers keys := by
  obtain ⟨array, harray⟩ := hsame
  have harrays : writeAll ((viewEntries .ascii findServer args (counterView findServer servers)
        (validKeys keyPrefix keys)).map Prod.snd)
      = writeAll ((viewEntries .binary findServer args (counterView findServer servers)
        (validKeys keyPrefix keys)).map Prod.snd) := by
    rw [← numericEntries_eq, ← numericEntries_eq]
    exact ((harray .ascii _).mp (multiIncrement_inOrder h)).trans
      ((harray .binary _).mp (multiIncrement_inOrder h)).symm
  have hascii : ∀ k ∈ validKeys keyPrefix keys, args.initial .ascii ≠ none →
      counterView findServer servers k.2 ≠ none := fun k _ hinitial => absurd (initial_ascii args) hinitial
  -- an entry of one protocol is under a key of an entry of the other
  have htransfer : ∀ p p' x, (∃ k ∈ validKeys keyPrefix keys,
      entryKey p (counterView findServer servers) k = x) → (∀ k ∈ validKeys keyPrefix keys,
        args.initial p ≠ none → counterView findServer servers k.2 ≠ none) →
      ∃ e ∈ viewEntries p' findServer args (counterView findServer servers) (validKeys keyPrefix keys),
        e.2.1 = x := by
    rintro p p' x ⟨k, hk, rfl⟩ hcreate
    have hkeys := @viewEntries_keys p findServer args (counterView findServer servers) _ hcreate
    have hmem : (findServer k.2, entryKey p (counterView findServer servers) k)
        ∈ (validKeys keyPrefix keys).map
          fun k => (findServer k.2, entryKey p (counterView findServer servers) k) :=
      List.mem_map_of_mem hk
    rw [← hkeys] at hmem
    obtain ⟨e, he, heq⟩ := List.mem_map.mp hmem
    obtain ⟨v, hv⟩ := exists_writeAll (List.mem_map_of_mem (f := Prod.snd) he)
    have hkey : e.2.1 = entryKey p (counterView findServer servers) k := congrArg Prod.snd heq
    have hboth : ∀ p₁ p₂ : WireProtocol,
        writeAll ((viewEntries p₁ findServer args (counterView findServer servers)
          (validKeys keyPrefix keys)).map Prod.snd)
        = writeAll ((viewEntries p₂ findServer args (counterView findServer servers)
          (validKeys keyPrefix keys)).map Prod.snd) := by
      intro p₁ p₂
      cases p₁ <;> cases p₂ <;> first | rfl | exact harrays | exact harrays.symm
    rw [hboth p p'] at hv
    obtain ⟨e', he', heq'⟩ := List.mem_map.mp (mem_of_writeAll hv)
    exact ⟨e', he', (congrArg Prod.fst heq').trans hkey⟩
  have hcreate : ∀ k ∈ validKeys keyPrefix keys, args.initial .binary ≠ none →
      counterView findServer servers k.2 ≠ none := by
    intro k hk hinitial hview
    obtain ⟨e, he, hkey⟩ := htransfer .ascii .binary (k.2 ++ [0])
      ⟨k, hk, by rw [entryKey, hview]⟩ hascii
    rcases viewEntries_created hinitial he hkey with ⟨k', hk', heq⟩ | hplain
    · exact hunmasked k' hk' k hk heq
    · rw [hview] at hplain
      cases hplain
  -- the keys of the user of the counters, each entered by the text protocol too
  let counted : Set Bytes := {x | ∃ k ∈ validKeys keyPrefix keys,
    (∃ n, counterView findServer servers k.2 = some (some n)) ∧ k.1.str = x}
  have hcovered : ∀ x ∈ counted, ∃ y ∈ counted, mmcPrepareKeyEx y keyPrefix = some x := by
    rintro x ⟨k, hk, ⟨n, hview⟩, rfl⟩
    obtain ⟨e, he, hkey⟩ := htransfer .binary .ascii k.1.str ⟨k, hk, by rw [entryKey, hview]; rfl⟩ hcreate
    have hmem := List.mem_map_of_mem (f := fun e : Mmc × Bytes × ArrayValue => (e.1, e.2.1)) he
    rw [viewEntries_keys hascii] at hmem
    obtain ⟨k', hk', heq⟩ := List.mem_map.mp hmem
    have hentry : entryKey .ascii (counterView findServer servers) k' = k.1.str :=
      (congrArg Prod.snd heq).trans hkey
    rcases hview' : counterView findServer servers k'.2 with _ | _ | n'
    · rw [entryKey, hview'] at hentry
      exact absurd hentry.symm (hunmasked k hk k' hk')
    · rw [entryKey, hview'] at hentry
      exact absurd hentry.symm (hunmasked k hk k' hk')
    · rw [entryKey, hview'] at hentry
      refine ⟨k'.1.str, ⟨k', hk', ⟨n', hview'⟩, rfl⟩, ?_⟩
      rw [(mem_validKeys.mp hk').2]
      exact congrArg some hentry
  have hvalid : ∀ x ∈ counted, mmcPrepareKeyEx x keyPrefix ≠ none := by
    rintro x ⟨k, hk, -, rfl⟩
    rw [(mem_validKeys.mp hk).2]
    simp
  have hfixed : ∀ k ∈ validKeys keyPrefix keys, ∀ n,
      counterView findServer servers k.2 = some (some n) → k.2 = k.1.str := by
    intro k hk n hview
    exact (sent_eq_iff hk).mpr
      (prepared_of_covered h.prefixShort hvalid hcovered _ ⟨k, hk, ⟨n, hview⟩, rfl⟩)
  intro k hk
  refine ⟨fun hinitial hitem => hcreate k hk hinitial ((counterView_eq_none k.2).mpr hitem), ?_⟩
  intro item hitem n hn
  have hview : counterView findServer servers k.2 = some (some n) :=
    (counterView_eq_some k.2 n).mpr ⟨item, hitem, hn⟩
  refine ⟨hfixed k hk n hview, ?_⟩
  have hnul := not_mem_of_plain (h.sent hk).1
  have hvalue := congrFun harrays k.2
  rw [writeAll_viewEntries hview hnul hascii fun k hk n hview => rfl,
    writeAll_viewEntries hview hnul hcreate fun k hk n hview => (hfixed k hk n hview).symm] at hvalue
  have hpos : (validKeys keyPrefix keys).countP (fun k' => k'.2 = k.2) ≠ 0 := by
    rw [Ne, List.countP_eq_zero]
    intro hnone
    exact hnone k hk (by simp)
  rw [if_neg hpos, if_neg hpos] at hvalue
  exact (phpLong_eq_iff _).mp (ArrayValue.long.inj (Option.some.inj hvalue))

/-- **The keys of the results** do not depend on the protocol if the condition holds; and they do if it
    does not, unless refusals are entered under keys of the user. -/
theorem sameArray_iff_keysKept (h : KeysFit keyPrefix keys) (op : MultiOperation) :
    (op.KeysKept unpack keyPrefix findServer servers keys →
        op.SameArray unpack keyPrefix findServer servers keys) ∧
      (op.Unmasked keyPrefix keys → op.SameArray unpack keyPrefix findServer servers keys →
        op.KeysKept unpack keyPrefix findServer servers keys) := by
  cases op with
  | get withCas =>
    have hiff := @sameArray_get_iff unpack keyPrefix findServer servers keys h withCas
    exact ⟨hiff.mpr, fun _ => hiff.mp⟩
  | increment args => exact ⟨sameArray_increment h args, keysKept_increment h args⟩

end Same

/-- A server with one item. -/
def serverWith (key data : Bytes) (h : data.length ≤ itemLimit) : Memcached where
  items := Function.update (fun _ => none) key (some ⟨data, 0, 1, h⟩)
  lastToken := 1

theorem keysFit_single {keyPrefix : Bytes} {zkey : ZKey} (hshort : keyPrefix.length ≤ 250)
    (hlen : zkey.str.length ≤ 250) : KeysFit keyPrefix [zkey] where
  prefixShort := hshort
  few := by
    rw [List.length_singleton]
    decide
  distinct := List.nodup_singleton _
  nowrap k hk := by
    obtain rfl : k = zkey := List.mem_singleton.mp hk
    have hmod : k.str.length % 2 ^ 32 = k.str.length := Nat.mod_eq_of_lt (by omega)
    omega

/-- The counter `n` holds 5 and is increased by 1. -/
theorem increment_five_same :
    (MultiOperation.increment { value := 1 }).SameArray (fun _ data => some data) [] (fun _ => 0)
      (fun _ => serverWith [110] [53] (by decide)) [⟨1, [110]⟩] := by
  refine (sameArray_iff_keysKept (keysFit_single (by decide) (by decide)) _).1 ?_
  intro k hk
  obtain rfl : k = (⟨1, [110]⟩, [110]) := List.mem_singleton.mp hk
  refine ⟨fun h => absurd rfl h, fun item hitem n hn => ⟨rfl, ?_⟩⟩
  cases hitem
  cases hn
  decide

/-- With the prefix `p`, the key `a` comes back as `pa` under the text protocol. -/
theorem prefixed_get_not_same :
    ¬ (MultiOperation.get false).SameArray (fun _ data => some data) [112] (fun _ => 0)
      (fun _ => serverWith [112, 97] [120] (by decide)) [⟨1, [97]⟩] := by
  intro hsame
  have hkept := (sameArray_get_iff (keysFit_single (by decide) (by decide)) false).mp hsame
  have hkey := hkept (⟨1, [97]⟩, [112, 97]) (by decide) (by decide)
  exact absurd hkey (by decide)

end PeclMemcache
