import PeclMemcache.Buffers
import PeclMemcache.SessionClients

set_option autoImplicit false

/-! # Key buffers

The places that write a key into `char key[MMC_MAX_KEY_LEN + 1]`: `mmc_prepare_key_ex`, the session
handlers that append `".lock"` to a prepared key, and the copy `mmc_unpack_value` makes of a key
before it unserializes a value. The models of the other modules have keys as lists of bytes; here the
writes are checked against the end of the buffer. -/

namespace PeclMemcache

open Buffers

/-- `char key[MMC_MAX_KEY_LEN + 1]`. -/
abbrev KeyBuffer := Vector UInt8 (MMC_MAX_KEY_LEN + 1)

/-- The first `len` bytes of a key buffer. -/
def KeyBuffer.content (b : KeyBuffer) (len : Nat) : Bytes := b.toList.take len

/-! ## Prepared keys -/

/-- The `result_len` of `mmc_prepare_key_ex`, whose sum is an `unsigned int`. -/
def preparedLen (key keyPrefix : Bytes) : Nat :=
  min ((keyPrefix.length % 2 ^ 32 + key.length % 2 ^ 32) % 2 ^ 32) MMC_MAX_KEY_LEN

/-- `mmc_prepare_key_ex` on the buffer `result`: the buffer and `result_len`, `none` for
    `MMC_REQUEST_FAILURE`, or the first position it writes to behind the buffer. A missing prefix is
    an empty one; `strlen` of the prefix and the length of the key are an `unsigned int`. -/
def KeyBuffer.mmcPrepareKeyEx (key keyPrefix : Bytes) (result : KeyBuffer) :
    Except Nat (Option (KeyBuffer × Nat)) :=
  let keyLen := key.length % 2 ^ 32
  if keyLen = 0 then .ok none
  else do
    let prefixLen := keyPrefix.length % 2 ^ 32
    let resultLen := preparedLen key keyPrefix
    let b ← poke resultLen 0 result
    if prefixLen ≠ 0 then
      -- the loop over the prefix is not bounded by `result_len`
      let b ← pokes 0 ((keyPrefix.take prefixLen).map keyByte) b
      let b ← pokes prefixLen ((key.take (resultLen - prefixLen)).map keyByte) b
      let b ← poke resultLen 0 b
      return some (b, resultLen)
    else
      let b ← pokes 0 ((key.take resultLen).map keyByte) b
      return some (b, resultLen)

theorem preparedLen_le (key keyPrefix : Bytes) : preparedLen key keyPrefix ≤ MMC_MAX_KEY_LEN :=
  Nat.min_le_right _ _

theorem preparedLen_lt (key keyPrefix : Bytes) :
    preparedLen key keyPrefix < MMC_MAX_KEY_LEN + 1 :=
  Nat.lt_succ_of_le (preparedLen_le key keyPrefix)

/-- The key has the bytes that are read of it behind the prefix. -/
theorem preparedLen_le_add (key keyPrefix : Bytes) :
    preparedLen key keyPrefix ≤ keyPrefix.length % 2 ^ 32 + key.length := by
  have h := Nat.mod_le (keyPrefix.length % 2 ^ 32 + key.length % 2 ^ 32) (2 ^ 32)
  have hkey := Nat.mod_le key.length (2 ^ 32)
  unfold preparedLen
  omega

/-- **In bounds.** A prefix that ends in the buffer leaves the key and its NUL there. -/
theorem KeyBuffer.mmcPrepareKeyEx_of_le {key keyPrefix : Bytes} (result : KeyBuffer)
    (hkey : key.length % 2 ^ 32 ≠ 0) (hbegin : keyPrefix.length % 2 ^ 32 ≤ MMC_MAX_KEY_LEN + 1) :
    ∃ b, mmcPrepareKeyEx key keyPrefix result = .ok (some (b, preparedLen key keyPrefix)) ∧
      b.content (preparedLen key keyPrefix)
        = ((keyPrefix.take (keyPrefix.length % 2 ^ 32) ++ key).map keyByte).take
            (preparedLen key keyPrefix) ∧
      b[preparedLen key keyPrefix]? = some 0 := by
  have hlt := preparedLen_lt key keyPrefix
  have hadd := preparedLen_le_add key keyPrefix
  unfold mmcPrepareKeyEx
  generalize hn : preparedLen key keyPrefix = n at hlt hadd ⊢
  generalize hp : keyPrefix.length % 2 ^ 32 = p at hbegin hadd ⊢
  have hple : p ≤ keyPrefix.length := hp ▸ Nat.mod_le _ _
  simp only [if_neg hkey, poke_of_lt hlt]
  by_cases hzero : p ≠ 0
  · have hpre : ((keyPrefix.take p).map keyByte).length = p := by simp [hple]
    have hrest : ((key.take (n - p)).map keyByte).length = n - p := by simp; omega
    have hall : ((keyPrefix.take p).map keyByte ++ (key.take (n - p)).map keyByte).length
        = p + (n - p) := by rw [List.length_append, hpre, hrest]
    have hover := overlay_append 0 ((keyPrefix.take p).map keyByte)
      ((key.take (n - p)).map keyByte) (overlay n [0] result)
    rw [hpre, Nat.zero_add] at hover
    refine ⟨overlay n [0] (overlay 0 ((keyPrefix.take p).map keyByte
      ++ (key.take (n - p)).map keyByte) (overlay n [0] result)), ?_, ?_, ?_⟩
    · rw [ok_bind, if_pos hzero, pokes_of_le _ _ _ (by omega), ok_bind,
        pokes_of_le _ _ _ (by omega), ok_bind, hover]
      rfl
    · have hkeep : ((key.take (n - p)).map keyByte).take (n - p)
          = (key.map keyByte).take (n - p) := by rw [List.map_take, List.take_take, Nat.min_self]
      rw [content, take_overlay_of_le (Nat.le_refl n),
        take_overlay_zero (by omega) (Nat.le_of_lt hlt), List.map_append, List.take_append,
        List.take_append, hpre, hkeep]
    · exact getElem?_overlay_self hlt 0 _
  · obtain rfl : p = 0 := not_not.mp hzero
    have hlen : ((key.take n).map keyByte).length = n := by simp; omega
    refine ⟨overlay 0 ((key.take n).map keyByte) (overlay n [0] result), ?_, ?_, ?_⟩
    · rw [ok_bind, if_neg hzero, pokes_of_le _ _ _ (by omega)]
      rfl
    · rw [content, take_overlay_zero (by omega) (Nat.le_of_lt hlt), List.map_take, List.take_take,
        Nat.min_self, List.take_zero, List.nil_append]
    · rw [getElem?_overlay_of_lt (Or.inr (by omega)), getElem?_overlay_self hlt]

/-- **Out of bounds.** A longer prefix is written behind the buffer. -/
theorem KeyBuffer.mmcPrepareKeyEx_of_lt {key keyPrefix : Bytes} (result : KeyBuffer)
    (hkey : key.length % 2 ^ 32 ≠ 0) (hbegin : MMC_MAX_KEY_LEN + 1 < keyPrefix.length % 2 ^ 32) :
    mmcPrepareKeyEx key keyPrefix result = .error (MMC_MAX_KEY_LEN + 1) := by
  have hlt := preparedLen_lt key keyPrefix
  unfold mmcPrepareKeyEx
  generalize preparedLen key keyPrefix = n at hlt ⊢
  generalize hp : keyPrefix.length % 2 ^ 32 = p at hbegin ⊢
  have hple : p ≤ keyPrefix.length := hp ▸ Nat.mod_le _ _
  have hpre : ((keyPrefix.take p).map keyByte).length = p := by simp [hple]
  simp only [if_neg hkey, poke_of_lt hlt]
  rw [ok_bind, if_pos (by omega), pokes_of_lt _ _ _ (Nat.zero_le _) (by omega)]
  rfl

/-- With a prefix that fits, the key in the buffer is the one of the other modules. -/
theorem KeyBuffer.mmcPrepareKeyEx_content (key : Bytes) {keyPrefix : Bytes} (result : KeyBuffer)
    (hbegin : keyPrefix.length ≤ MMC_MAX_KEY_LEN + 1) :
    ∃ prepared, mmcPrepareKeyEx key keyPrefix result = .ok prepared ∧
      prepared.map (fun p => p.1.content p.2) = PeclMemcache.mmcPrepareKeyEx key keyPrefix := by
  have hmax : MMC_MAX_KEY_LEN = 250 := rfl
  have hmod : keyPrefix.length % 2 ^ 32 = keyPrefix.length := Nat.mod_eq_of_lt (by omega)
  by_cases hkey : key.length % 2 ^ 32 = 0
  · exact ⟨none, if_pos hkey, (if_pos hkey).symm⟩
  · obtain ⟨b, hb, hcontent, -⟩ := mmcPrepareKeyEx_of_le result hkey (hmod ▸ hbegin)
    refine ⟨_, hb, ?_⟩
    rw [hmod, List.take_length] at hcontent
    rw [PeclMemcache.mmcPrepareKeyEx, if_neg hkey, Option.map_some, hcontent, preparedLen, hmod]

theorem KeyBuffer.len_of_mmcPrepareKeyEx {key keyPrefix : Bytes} {result : KeyBuffer}
    {prepared : KeyBuffer × Nat}
    (h : mmcPrepareKeyEx key keyPrefix result = .ok (some prepared)) :
    prepared.2 = preparedLen key keyPrefix := by
  by_cases hkey : key.length % 2 ^ 32 = 0
  · rw [show mmcPrepareKeyEx key keyPrefix result = .ok none from if_pos hkey] at h
    cases h
  · by_cases hbegin : keyPrefix.length % 2 ^ 32 ≤ MMC_MAX_KEY_LEN + 1
    · obtain ⟨b, hb, -⟩ := mmcPrepareKeyEx_of_le result hkey hbegin
      rw [hb] at h
      cases h
      rfl
    · rw [mmcPrepareKeyEx_of_lt result hkey (by omega)] at h
      cases h

/-- What is promised of the preparation: it rejects the empty key only, writes to no position behind
    the buffer, and leaves there the first bytes of prefix and key, without spaces and control
    characters, and a NUL behind them. -/
def KeyBuffer.Prepares (key keyPrefix : Bytes) (result : KeyBuffer) : Prop :=
  match mmcPrepareKeyEx key keyPrefix result with
  | .error _ => False
  | .ok none => key = []
  | .ok (some (b, len)) =>
    key ≠ [] ∧ len = min MMC_MAX_KEY_LEN (keyPrefix.length + key.length) ∧
      b.content len = ((keyPrefix ++ key).map keyByte).take len ∧ b[len]? = some 0

/-- The prefix ends in the buffer and no length wraps around, or the wrapping makes no difference to
    the first bytes. -/
def KeyFits (key keyPrefix : Bytes) : Prop :=
  key = [] ∨
    key.length % 2 ^ 32 ≠ 0 ∧ keyPrefix.length % 2 ^ 32 ≤ MMC_MAX_KEY_LEN + 1 ∧
      (keyPrefix.length + key.length < 2 ^ 32 ∨
        MMC_MAX_KEY_LEN ≤ (keyPrefix.length + key.length) % 2 ^ 32 ∧
          (keyPrefix.length < 2 ^ 32 ∨
            (key.map keyByte).take (MMC_MAX_KEY_LEN - keyPrefix.length % 2 ^ 32)
              = ((keyPrefix.drop (keyPrefix.length % 2 ^ 32)).map keyByte).take
                  (MMC_MAX_KEY_LEN - keyPrefix.length % 2 ^ 32)))

/-- A prefix that is cut gives the same first bytes where the key goes on as the prefix does. -/
theorem take_prefix_append {α : Type} {n p : Nat} {xs : List α} (ys : List α)
    (h : n ≤ xs.length - p) :
    (xs.take p ++ ys).take n = (xs ++ ys).take n ↔ ys.take (n - p) = (xs.drop p).take (n - p) := by
  have hsplit : xs ++ ys = xs.take p ++ (xs.drop p ++ ys) := by
    rw [← List.append_assoc, List.take_append_drop]
  have hdrop : (xs.drop p ++ ys).take (n - (xs.take p).length)
      = (xs.drop p).take (n - (xs.take p).length) :=
    List.take_append_of_le_length (by simp; omega)
  by_cases hp : p ≤ xs.length
  · rw [hsplit, List.take_append, List.take_append, hdrop, List.length_take_of_le hp]
    exact List.append_right_inj _
  · have hn : n = 0 := by omega
    subst hn
    simp

/-- The length is right unless the sum wraps around to a short one. -/
theorem preparedLen_eq_iff {key keyPrefix : Bytes} :
    preparedLen key keyPrefix = min MMC_MAX_KEY_LEN (keyPrefix.length + key.length) ↔
      keyPrefix.length + key.length < 2 ^ 32 ∨
        MMC_MAX_KEY_LEN ≤ (keyPrefix.length + key.length) % 2 ^ 32 := by
  have hmax : MMC_MAX_KEY_LEN = 250 := rfl
  rw [preparedLen, ← Nat.add_mod]
  by_cases h : keyPrefix.length + key.length < 2 ^ 32
  · rw [Nat.mod_eq_of_lt h, Nat.min_comm]
    exact iff_of_true rfl (Or.inl h)
  · omega

/-- **When a key is prepared as promised.** -/
theorem KeyBuffer.prepares_iff_keyFits (key keyPrefix : Bytes) (result : KeyBuffer) :
    Prepares key keyPrefix result ↔ KeyFits key keyPrefix := by
  have hmax : MMC_MAX_KEY_LEN = 250 := rfl
  unfold Prepares KeyFits
  by_cases hnil : key = []
  · subst hnil
    exact iff_of_true rfl (Or.inl rfl)
  rw [or_iff_right hnil]
  by_cases hkey : key.length % 2 ^ 32 = 0
  · have hreject : mmcPrepareKeyEx key keyPrefix result = .ok none := if_pos hkey
    rw [hreject]
    exact iff_of_false hnil fun h => h.1 hkey
  by_cases hbegin : keyPrefix.length % 2 ^ 32 ≤ MMC_MAX_KEY_LEN + 1
  · obtain ⟨b, hb, hcontent, hnul⟩ := mmcPrepareKeyEx_of_le result hkey hbegin
    rw [hb]
    dsimp only
    rw [hcontent, preparedLen_eq_iff, List.map_append, List.map_append, List.map_take]
    by_cases hshort : keyPrefix.length < 2 ^ 32
    · -- the prefix is not cut
      have hmod := Nat.mod_eq_of_lt hshort
      rw [hmod] at hbegin ⊢
      rw [List.take_of_length_le (Nat.le_of_eq (List.length_map _))]
      simp only [hnil, hkey, hnul, hshort, hbegin, true_or, and_true, ne_eq, not_false_iff,
        true_and]
    · have hsum : ¬ keyPrefix.length + key.length < 2 ^ 32 := by omega
      simp only [hnil, hkey, hnul, hshort, hbegin, hsum, false_or, and_true, ne_eq,
        not_false_iff, true_and]
      refine and_congr_right fun hwrap => ?_
      have hlen : preparedLen key keyPrefix = MMC_MAX_KEY_LEN := by
        rw [preparedLen_eq_iff.mpr (Or.inr hwrap)]
        omega
      rw [hlen, take_prefix_append _ (by rw [List.length_map]; omega), List.map_drop]
  · rw [mmcPrepareKeyEx_of_lt result hkey (by omega)]
    exact iff_of_false id fun h => hbegin h.2.1

/-- A prefix of 300 bytes is written over what follows the buffer. -/
theorem KeyBuffer.longPrefix_overruns :
    ¬ Prepares [97] (List.replicate 300 112) (Vector.replicate _ 0) := by
  have hlen : (List.replicate 300 (112 : UInt8)).length = 300 := List.length_replicate
  have hover := mmcPrepareKeyEx_of_lt (Vector.replicate _ 0) (show [97].length % 2 ^ 32 ≠ 0 by decide)
    (show MMC_MAX_KEY_LEN + 1 < (List.replicate 300 112).length % 2 ^ 32 by rw [hlen]; decide)
  rw [Prepares, hover]
  exact id

/-! ## Keys of session locks -/

/-- A request: its key buffer, `key_len` and its other fields `F`. -/
structure KeyedRequest (F : Type) where
  key : KeyBuffer
  keyLen : Nat
  fields : F

variable {F : Type}

/-- The key that a command of the request sends. -/
def KeyedRequest.sentKey (q : KeyedRequest F) : Bytes := q.key.content q.keyLen

/-- `memcpy` of the data key and `strcpy` of `".lock"` behind it. -/
def copyLockKey (data lock : KeyedRequest F) : Except Nat (KeyedRequest F) := do
  let key ← pokes 0 data.sentKey lock.key
  let key ← pokes data.keyLen (bytes ['.', 'l', 'o', 'c', 'k'] ++ [0]) key
  return { lock with key, keyLen := data.keyLen + 5 }

/-- Prepare the key of the data request and copy it to the requests for the lock, `none` where the
    key is rejected. -/
def sessionKeys (sessionKeyPrefix id : Bytes) (data : KeyedRequest F)
    (locks : List (KeyedRequest F)) :
    Except Nat (Option (KeyedRequest F × List (KeyedRequest F))) := do
  match ← KeyBuffer.mmcPrepareKeyEx id sessionKeyPrefix data.key with
  | none => return none
  | some (key, keyLen) =>
    let data := { data with key, keyLen }
    let locks ← locks.mapM (copyLockKey data)
    return some (data, locks)

/-- The keys of `php_mmc_session_read_request`, whose requests for the lock are an increment and an
    add. -/
def phpMmcSessionReadRequest (sessionKeyPrefix zkey : Bytes) (lreq areq dreq : KeyedRequest F) :=
  sessionKeys sessionKeyPrefix zkey dreq [lreq, areq]

/-- The keys of `PS_WRITE_FUNC(memcache)`. -/
def psWriteKeys (sessionKeyPrefix key : Bytes) (lockrequest datarequest : KeyedRequest F) :=
  sessionKeys sessionKeyPrefix key datarequest [lockrequest]

/-- The keys of `PS_DESTROY_FUNC(memcache)`. -/
def psDestroyKeys (sessionKeyPrefix key : Bytes) (lockrequest datarequest : KeyedRequest F) :=
  sessionKeys sessionKeyPrefix key datarequest [lockrequest]

/-- What is promised of a lock key: it is sent whole and not longer than a key may be, it has a NUL
    behind it, and the rest of the request is as it was. -/
structure LockKeyFits (data lock lock' : KeyedRequest F) : Prop where
  length : lock'.keyLen ≤ MMC_MAX_KEY_LEN
  nul : lock'.key[lock'.keyLen]? = some 0
  sent : lock'.sentKey = lockKey data.sentKey
  fields : lock'.fields = lock.fields

/-- A handler ends with keys for all its requests for the lock. -/
def LockKeysFit (locks : List (KeyedRequest F))
    (outcome : Except Nat (Option (KeyedRequest F × List (KeyedRequest F)))) : Prop :=
  ∃ data locks', outcome = .ok (some (data, locks')) ∧
    List.Forall₂ (LockKeyFits data) locks locks'

theorem copyLockKey_of_le {data : KeyedRequest F} (lock : KeyedRequest F)
    (h : data.keyLen + 5 ≤ MMC_MAX_KEY_LEN) :
    ∃ lock', copyLockKey data lock = .ok lock' ∧ LockKeyFits data lock lock' := by
  have hmax : MMC_MAX_KEY_LEN = 250 := rfl
  have hsent : data.sentKey.length = data.keyLen := by
    simp [KeyedRequest.sentKey, KeyBuffer.content]
    omega
  have hover := overlay_append 0 data.sentKey (bytes ['.', 'l', 'o', 'c', 'k'] ++ [0]) lock.key
  rw [hsent, Nat.zero_add] at hover
  have hlen : (data.sentKey ++ (bytes ['.', 'l', 'o', 'c', 'k'] ++ [0])).length
      = data.keyLen + 6 := by
    rw [List.length_append, hsent]
    rfl
  have hnul : (bytes ['.', 'l', 'o', 'c', 'k'] ++ [0])[5]? = some 0 := by decide
  refine ⟨{ lock with
    key := overlay 0 (data.sentKey ++ (bytes ['.', 'l', 'o', 'c', 'k'] ++ [0])) lock.key
    keyLen := data.keyLen + 5 }, ?_, h, ?_, ?_, rfl⟩
  · rw [copyLockKey, pokes_of_le _ _ _ (by omega), ok_bind,
      pokes_of_le _ _ _ (show data.keyLen + 6 ≤ _ by omega), ok_bind, hover]
    rfl
  · show (overlay 0 _ lock.key)[data.keyLen + 5]? = some 0
    rw [Vector.getElem?_eq_getElem (by omega), getElem_overlay, if_pos (Nat.zero_le _),
      List.getElem?_append_right (by omega), hsent,
      show data.keyLen + 5 - 0 - data.keyLen = 5 by omega, hnul, Option.getD_some]
  · have htake : (data.sentKey ++ (bytes ['.', 'l', 'o', 'c', 'k'] ++ [0])).take
        (data.keyLen + 5) = lockKey data.sentKey := by
      rw [← List.append_assoc]
      exact List.take_left' (by rw [List.length_append, hsent]; rfl)
    rw [KeyedRequest.sentKey, KeyBuffer.content]
    dsimp only
    rw [take_overlay_zero (by omega) (by omega), htake]

theorem copyLockKey_of_lt {data : KeyedRequest F} (lock : KeyedRequest F)
    (hdata : data.keyLen ≤ MMC_MAX_KEY_LEN) (h : MMC_MAX_KEY_LEN < data.keyLen + 5) :
    copyLockKey data lock = .error (MMC_MAX_KEY_LEN + 1) := by
  have hmax : MMC_MAX_KEY_LEN = 250 := rfl
  have hsent : data.sentKey.length = data.keyLen := by
    simp [KeyedRequest.sentKey, KeyBuffer.content]
    omega
  have hlen : (bytes ['.', 'l', 'o', 'c', 'k'] ++ [0]).length = 6 := rfl
  rw [copyLockKey, pokes_of_le _ _ _ (by omega), ok_bind,
    pokes_of_lt _ _ _ (by omega) (by omega), error_bind]

/-- All the requests for the lock get their keys, by induction on them. -/
theorem mapM_copyLockKey {data : KeyedRequest F} (h : data.keyLen + 5 ≤ MMC_MAX_KEY_LEN)
    (locks : List (KeyedRequest F)) :
    ∃ locks', locks.mapM (copyLockKey data) = .ok locks' ∧
      List.Forall₂ (LockKeyFits data) locks locks' := by
  induction locks with
  | nil => exact ⟨[], rfl, List.Forall₂.nil⟩
  | cons lock rest ih =>
    obtain ⟨lock', hlock, hfits⟩ := copyLockKey_of_le lock h
    obtain ⟨rest', hrest, hall⟩ := ih
    refine ⟨lock' :: rest', ?_, List.Forall₂.cons hfits hall⟩
    rw [List.mapM_cons, hlock, ok_bind, hrest]
    rfl

/-- **When the lock keys of a handler fit.** -/
theorem lockKeysFit_sessionKeys {sessionKeyPrefix id : Bytes} {data : KeyedRequest F}
    {prepared : KeyBuffer × Nat}
    (hprepared : KeyBuffer.mmcPrepareKeyEx id sessionKeyPrefix data.key = .ok (some prepared))
    (lock : KeyedRequest F) (locks : List (KeyedRequest F)) :
    LockKeysFit (lock :: locks) (sessionKeys sessionKeyPrefix id data (lock :: locks)) ↔
      (sessionKeyPrefix.length + id.length) % 2 ^ 32 + 5 ≤ MMC_MAX_KEY_LEN := by
  have hmax : MMC_MAX_KEY_LEN = 250 := rfl
  obtain ⟨key, keyLen⟩ := prepared
  have hlen : keyLen = preparedLen id sessionKeyPrefix := KeyBuffer.len_of_mmcPrepareKeyEx hprepared
  rw [preparedLen, ← Nat.add_mod] at hlen
  rw [sessionKeys, hprepared]
  by_cases hroom : keyLen + 5 ≤ MMC_MAX_KEY_LEN
  · refine iff_of_true ?_ (by omega)
    obtain ⟨locks', hlocks, hfit⟩ :=
      @mapM_copyLockKey F { data with key, keyLen } hroom (lock :: locks)
    refine ⟨_, locks', ?_, hfit⟩
    rw [ok_bind]
    dsimp only
    rw [hlocks]
    rfl
  · refine iff_of_false ?_ (by omega)
    rintro ⟨data', locks', h, -⟩
    rw [ok_bind] at h
    dsimp only at h
    rw [List.mapM_cons, @copyLockKey_of_lt F { data with key, keyLen } lock
      (show keyLen ≤ _ by omega) (Nat.lt_of_not_le hroom)] at h
    cases h

/-- **The lock keys of the handlers** fit exactly where prefix and id leave room for `".lock"`. -/
theorem sessionLockKeys_fit_iff {sessionKeyPrefix id : Bytes} {datarequest : KeyedRequest F}
    {prepared : KeyBuffer × Nat}
    (hprepared : KeyBuffer.mmcPrepareKeyEx id sessionKeyPrefix datarequest.key
      = .ok (some prepared)) (lockrequest addrequest : KeyedRequest F) :
    (LockKeysFit [lockrequest, addrequest]
        (phpMmcSessionReadRequest sessionKeyPrefix id lockrequest addrequest datarequest) ↔
      (sessionKeyPrefix.length + id.length) % 2 ^ 32 + 5 ≤ MMC_MAX_KEY_LEN) ∧
    (LockKeysFit [lockrequest] (psWriteKeys sessionKeyPrefix id lockrequest datarequest) ↔
      (sessionKeyPrefix.length + id.length) % 2 ^ 32 + 5 ≤ MMC_MAX_KEY_LEN) ∧
    (LockKeysFit [lockrequest] (psDestroyKeys sessionKeyPrefix id lockrequest datarequest) ↔
      (sessionKeyPrefix.length + id.length) % 2 ^ 32 + 5 ≤ MMC_MAX_KEY_LEN) :=
  ⟨lockKeysFit_sessionKeys hprepared _ _, lockKeysFit_sessionKeys hprepared _ _,
    lockKeysFit_sessionKeys hprepared _ _⟩

/-- The id `"a"` without a prefix leaves room. -/
theorem sessionLockKeys_fit_short :
    ∃ prepared, KeyBuffer.mmcPrepareKeyEx [97] [] (Vector.replicate _ 0) = .ok (some prepared) ∧
      LockKeysFit [⟨Vector.replicate _ 0, 0, ()⟩, ⟨Vector.replicate _ 0, 0, ()⟩]
        (phpMmcSessionReadRequest [] [97] ⟨Vector.replicate _ 0, 0, ()⟩
          ⟨Vector.replicate _ 0, 0, ()⟩ ⟨Vector.replicate _ 0, 0, ()⟩) := by
  obtain ⟨b, hb, -⟩ := @KeyBuffer.mmcPrepareKeyEx_of_le [97] [] (Vector.replicate _ 0) (by decide) (by decide)
  exact ⟨_, hb, (@sessionLockKeys_fit_iff Unit _ _ ⟨Vector.replicate _ 0, 0, ()⟩ _
    hb ⟨Vector.replicate _ 0, 0, ()⟩ ⟨Vector.replicate _ 0, 0, ()⟩).1.mpr (by decide)⟩

/-- An id of 248 bytes: `".lock"` is written over the end of the key buffers of `PS_READ`. -/
theorem sessionLockKeys_overrun :
    (∃ prepared, KeyBuffer.mmcPrepareKeyEx (List.replicate 248 97) [] (Vector.replicate _ 0)
      = .ok (some prepared)) ∧
    ¬ LockKeysFit [⟨Vector.replicate _ 0, 0, ()⟩, ⟨Vector.replicate _ 0, 0, ()⟩]
        (phpMmcSessionReadRequest [] (List.replicate 248 97) ⟨Vector.replicate _ 0, 0, ()⟩
          ⟨Vector.replicate _ 0, 0, ()⟩ ⟨Vector.replicate _ 0, 0, ()⟩) := by
  have hlen : (List.replicate 248 (97 : UInt8)).length = 248 := List.length_replicate
  obtain ⟨b, hb, -⟩ := @KeyBuffer.mmcPrepareKeyEx_of_le (List.replicate 248 97) []
    (Vector.replicate _ 0) (by rw [hlen]; decide) (by decide)
  refine ⟨⟨_, hb⟩, fun h => ?_⟩
  have hroom := (@lockKeysFit_sessionKeys Unit _ _ ⟨Vector.replicate _ 0, 0, ()⟩ _
    hb ⟨Vector.replicate _ 0, 0, ()⟩ [⟨Vector.replicate _ 0, 0, ()⟩]).mp h
  rw [hlen] at hroom
  exact absurd hroom (by decide)

/-! ## The copy of a key -/

/-- The keys `mmc_unpack_value` is called with: the one of a `VALUE` line, or one a get operation has
    accepted and a binary request remembers. -/
inductive ReadsKey (keyPrefix : Bytes) : WireProtocol → Bytes → Prop
  | ascii {w w' : Wire} (h : asciiParseValue w = (.again, w')) :
      ReadsKey keyPrefix .ascii w'.req.value.key
  | binary {q : MmcRequest} {key : Bytes} (h : binaryKey q = some key)
      (prepared : mmcPrepareKeyEx key keyPrefix ≠ none) : ReadsKey keyPrefix .binary key

variable {δ ω : Type} (C : Codec δ ω)

/-- `mmc_unpack_value` with its key: the key and the value the handler is called with, or the first
    position behind `key_tmp` that is written to. The length of the key is an `unsigned int`, and so
    is the size of the copy. -/
def KeyBuffer.mmcUnpackValue (keyTmp : KeyBuffer) (key data : Bytes) (flags : UInt32) :
    Except Nat (Option (Bytes × Zval δ ω)) :=
  let keyLen := key.length % 2 ^ 32
  let object := PeclMemcache.mmcUnpackValue C data flags
  if (expanded C data flags).isNone then .ok none
  else if flags &&& MMC_SERIALIZED ≠ 0 then do
    let b ← pokes 0 ((key ++ [0]).take ((keyLen + 1) % 2 ^ 32)) keyTmp
    return object.map fun value => (KeyBuffer.content b keyLen, value)
  else .ok (object.map fun value => (key.take keyLen, value))

/-- What is promised of the copy: it stays in `key_tmp`, and the handler gets the key that it gets
    with a value that is not serialized. -/
def CopiesKey (keyTmp : KeyBuffer) (key data : Bytes) (flags : UInt32) : Prop :=
  ∃ called, KeyBuffer.mmcUnpackValue C keyTmp key data flags = .ok called ∧
    ∀ call ∈ called, call.1 = key.take (key.length % 2 ^ 32)

/-- A value that is not serialized comes with the key. -/
theorem copiesKey_of_not_serialized (keyTmp : KeyBuffer) (key data : Bytes) {flags : UInt32}
    (hflags : flags &&& MMC_SERIALIZED = 0) : CopiesKey C keyTmp key data flags := by
  unfold CopiesKey KeyBuffer.mmcUnpackValue
  by_cases hdata : (expanded C data flags).isNone
  · exact ⟨none, if_pos hdata, by simp⟩
  · refine ⟨_, (if_neg hdata).trans (if_neg (not_not.mpr hflags)), ?_⟩
    rintro call hcall
    obtain ⟨value, -, rfl⟩ := Option.mem_map.mp hcall
    rfl

theorem expanded_of_mmcUnpackValue {data : Bytes} {flags : UInt32} {v : Zval δ ω}
    (h : mmcUnpackValue C data flags = some v) : (expanded C data flags).isNone = false := by
  unfold mmcUnpackValue at h
  cases hdata : expanded C data flags with
  | none => rw [hdata] at h; cases h
  | some plain => rfl

/-- **When the key is copied as promised**, for a key of any length. -/
theorem copiesKey_iff_of_serialized (keyTmp : KeyBuffer) (key data : Bytes) {flags : UInt32}
    (hflags : flags &&& MMC_SERIALIZED ≠ 0) :
    CopiesKey C keyTmp key data flags ↔
      key.length % 2 ^ 32 ≤ MMC_MAX_KEY_LEN ∨ expanded C data flags = none ∨
        key.length % 2 ^ 32 + 1 = 2 ^ 32 ∧ mmcUnpackValue C data flags = none := by
  have hmax : MMC_MAX_KEY_LEN = 250 := rfl
  have hmod := Nat.mod_le key.length (2 ^ 32)
  have hlt := Nat.mod_lt key.length (show 2 ^ 32 > 0 by decide)
  unfold CopiesKey KeyBuffer.mmcUnpackValue
  dsimp only
  cases hdata : expanded C data flags with
  | none => exact iff_of_true ⟨none, rfl, by simp⟩ (Or.inr (Or.inl rfl))
  | some plain =>
    simp only [Option.isNone_some, Bool.false_eq_true, if_false, if_pos hflags, reduceCtorEq,
      false_or]
    generalize key.length % 2 ^ 32 = len at hmod hlt
    by_cases hshort : len ≤ MMC_MAX_KEY_LEN
    · refine iff_of_true ?_ (Or.inl hshort)
      have hcopy : ((key ++ [0]).take ((len + 1) % 2 ^ 32)).length = len + 1 := by
        rw [Nat.mod_eq_of_lt (by omega), List.length_take, List.length_append,
          List.length_singleton]
        omega
      rw [pokes_of_le _ _ _ (by omega)]
      refine ⟨_, rfl, fun call hcall => ?_⟩
      obtain ⟨value, -, rfl⟩ := Option.mem_map.mp hcall
      show (overlay 0 _ keyTmp).toList.take len = _
      rw [take_overlay_zero (by omega) (by omega), List.take_take, Nat.mod_eq_of_lt (by omega),
        Nat.min_eq_left (by omega), List.take_append_of_le_length hmod]
    · rw [or_iff_right hshort]
      by_cases hwrap : len + 1 = 2 ^ 32
      · -- nothing is copied, and the handler gets what `key_tmp` held
        rw [hwrap, Nat.mod_self, List.take_zero, pokes, ok_bind, and_iff_right rfl]
        constructor
        · rintro ⟨called, hcalled, hkeys⟩
          cases hobject : mmcUnpackValue C data flags with
          | none => rfl
          | some value =>
            rw [hobject] at hcalled
            cases hcalled
            have hcontent := congrArg List.length (hkeys _ rfl)
            dsimp only [KeyBuffer.content] at hcontent
            rw [List.length_take_of_le hmod, List.length_take, Vector.length_toList] at hcontent
            omega
        · intro hobject
          rw [hobject]
          exact ⟨none, rfl, by simp⟩
      · refine iff_of_false ?_ fun h => hwrap h.1
        rintro ⟨called, hcalled, -⟩
        rw [pokes_of_lt _ _ _ (Nat.zero_le _) (by
          rw [Nat.mod_eq_of_lt (by omega), List.length_take, List.length_append,
            List.length_singleton]
          omega)] at hcalled
        cases hcalled

/-- A line that announces a value has a key that fits. -/
theorem scanValueHeader_key {line : Bytes} (h : (scanValueHeader line).2.2.1 ≠ none) :
    ∃ key, (scanValueHeader line).1 = some key ∧ key.length ≤ MMC_MAX_KEY_LEN := by
  unfold scanValueHeader at h ⊢
  dsimp only at h ⊢
  generalize hrest : ((cString line).drop _).dropWhile isSpace = rest at h ⊢
  have hle : ((rest.take MMC_MAX_KEY_LEN).takeWhile fun b => !isSpace b).length
      ≤ MMC_MAX_KEY_LEN :=
    (List.takeWhile_sublist _).length_le.trans (List.length_take_le _ _)
  generalize (rest.take MMC_MAX_KEY_LEN).takeWhile (fun b => !isSpace b) = key at h hle ⊢
  by_cases hword : (!mmcStrLeft (cString line) (bytes ['V', 'A', 'L', 'U', 'E'])) = true
  · rw [if_pos hword] at h
    exact absurd rfl h
  rw [if_neg hword] at h ⊢
  cases key with
  | nil => exact absurd rfl h
  | cons b key =>
    refine ⟨b :: key, ?_, hle⟩
    dsimp only at h ⊢
    split
    · rfl
    · split <;> rfl

/-- The key the text protocol reads fits. -/
theorem length_asciiParseValue {w w' : Wire} (h : asciiParseValue w = (.again, w')) :
    w'.req.value.key.length ≤ MMC_MAX_KEY_LEN := by
  unfold asciiParseValue at h
  split at h
  · cases h
  · next line w₁ hline =>
    dsimp only at h
    split at h
    · cases h
    · split at h
      · exact absurd (congrArg Prod.fst h) fun hagain => by
          rcases Wire.failure_result _ with hretry | hfailure
          · rw [hretry] at hagain; cases hagain
          · rw [hfailure] at hagain; cases hagain
      · next hsize =>
        cases h
        obtain ⟨key, hkey, hle⟩ := @scanValueHeader_key line fun hnone => hsize (by
          rw [hnone]
          rfl)
        show ((scanValueHeader line).1.getD _).length ≤ _
        rw [hkey]
        exact hle

/-- **When the copy of a key is bounded**: always for the keys of the text protocol. -/
theorem copiesKey_iff {keyPrefix key : Bytes} {p : WireProtocol} (hkey : ReadsKey keyPrefix p key)
    (keyTmp : KeyBuffer) (data : Bytes) {flags : UInt32} (hflags : flags &&& MMC_SERIALIZED ≠ 0) :
    CopiesKey C keyTmp key data flags ↔
      p = .ascii ∨ key.length % 2 ^ 32 ≤ MMC_MAX_KEY_LEN ∨ expanded C data flags = none ∨
        key.length % 2 ^ 32 + 1 = 2 ^ 32 ∧ mmcUnpackValue C data flags = none := by
  rw [copiesKey_iff_of_serialized C keyTmp key data hflags]
  cases hkey with
  | @ascii w w' h =>
    have hle := length_asciiParseValue h
    have hmod := Nat.mod_le w'.req.value.key.length (2 ^ 32)
    exact iff_of_true (Or.inl (by omega)) (Or.inl rfl)
  | binary h prepared => exact (or_iff_right (by simp)).symm

/-- The request of a binary get for one key. -/
def rememberedKey (key : Bytes) : MmcRequest := { bin := { keys := [⟨0, key⟩] } }

/-- The key `"a"` of a serialized null. -/
theorem copiesKey_short :
    ReadsKey [] .binary [97] ∧
      CopiesKey sampleCodec (Vector.replicate _ 0) [97] (bytes ['N', ';']) MMC_SERIALIZED := by
  have hkey : ReadsKey [] .binary [97] := .binary (q := rememberedKey [97]) rfl (by decide)
  exact ⟨hkey, (copiesKey_iff sampleCodec hkey (Vector.replicate _ 0) (bytes ['N', ';'])
    (by decide)).mpr (Or.inr (Or.inl (by decide)))⟩

/-- A key of 300 bytes that a binary get has accepted: its copy is written behind `key_tmp`. -/
theorem copiesKey_overruns :
    ReadsKey [] .binary (List.replicate 300 107) ∧
      ¬ CopiesKey sampleCodec (Vector.replicate _ 0) (List.replicate 300 107) (bytes ['N', ';'])
        MMC_SERIALIZED := by
  have hlen : (List.replicate 300 (107 : UInt8)).length = 300 := List.length_replicate
  refine ⟨.binary (q := rememberedKey (List.replicate 300 107)) rfl ?_, ?_⟩
  · rw [mmcPrepareKeyEx, if_neg (by rw [hlen]; decide)]
    exact Option.some_ne_none _
  · rw [copiesKey_iff_of_serialized _ _ _ _ (by decide), hlen]
    decide

end PeclMemcache
