import PeclMemcache.Concatenation
import PeclMemcache.Machines

set_option autoImplicit false

/-! # Stores for an array of keys

`php_mmc_store` sends a request for every element of an array. All of them share one return value, which
`mmc_stored_handler` writes to: `NULL` becomes true with the first success, and anything becomes false
with a refusal. An element that drops out (its key is invalid, its value cannot be packed, it cannot be
scheduled, or its requests fail without a response the handler takes) does not touch it. -/

namespace PeclMemcache

open Machines

/-- The key of an element of a PHP array. -/
inductive ElementKey
  | index (n : UInt64)
  | string (s : Bytes)
  deriving DecidableEq, Repr

/-- What `php_mmc_store` makes of it: an index is printed. -/
def ElementKey.text : ElementKey → Bytes
  | .index n => decimal n.toNat
  | .string s => s

/-- The arguments of a store operation with an array, and the settings it runs under. -/
structure MultiStore (δ ω : Type) where
  protocol : WireProtocol
  codec : Codec δ ω
  compression : CompressSettings
  keyPrefix : Bytes
  numServers : Nat
  redundancy : Nat
  allowFailover : Bool
  op : MmcOp
  flags : UInt32
  exptime : Nat
  cas : Nat
  elements : List (ElementKey × Zval δ ω)

/-- A request on its way: the element it is for, and whether it is a copy. -/
structure WaitingStore where
  element : Nat
  copied : Bool
  deriving DecidableEq, Repr

/-- A state of the operation: the return value, how many elements the loop has handled, the requests that
    wait for a response, and the responses so far, each with its element. The code keeps no record of
    the responses. -/
structure StoreState where
  result : ReturnValue := .null
  handled : Nat := 0
  waiting : List WaitingStore := []
  responses : List (Nat × Int) := []
  deriving DecidableEq, Repr

/-- What happens next. `scheduled` and `copies` are what `mmc_pool_schedule_key` achieves, `again` is
    whether `mmc_pool_failover_handler` finds a server that takes the request. -/
inductive StoreEvent
  /-- The loop handles the next element. -/
  | element (scheduled : Bool) (copies : Nat)
  /-- A response to a waiting request reaches `mmc_stored_handler`. -/
  | response (i : Nat) (code : Int) (again : Bool)
  /-- A waiting request fails: its server times out or drops the connection. -/
  | failure (i : Nat) (again : Bool)
  deriving DecidableEq, Repr

namespace MultiStore

variable {δ ω : Type} (M : MultiStore δ ω)

/-- `pool->protocol->store`. -/
def store (key : Bytes) (value : Zval δ ω) : MmcResult × MmcRequest :=
  let packed := (mmcPackValue M.codec M.compression {} value M.flags).map fun p =>
    (p.1.value, p.2.toNat)
  match M.protocol with
  | .ascii => mmcAsciiStore {} M.op key M.exptime M.cas packed
  | .binary => mmcBinaryStore {} M.op key M.exptime M.cas packed

/-- The request for an element, unless its key is invalid or the store operation fails. -/
def request (e : ElementKey × Zval δ ω) : Option MmcRequest :=
  match mmcPrepareKeyEx e.1.text M.keyPrefix with
  | none => none
  | some key =>
    match M.store key e.2 with
    | (.ok, q) => some q
    | _ => none

/-- The failover handlers: `mmc_pool_failover_handler` may keep a request, a copy has none. -/
def failover (s : StoreState) (i : Nat) (w : WaitingStore) (again : Bool) : StoreState :=
  if again ∧ M.allowFailover ∧ ¬w.copied then s else { s with waiting := s.waiting.eraseIdx i }

/-- One step of `php_mmc_store` or of the rounds it runs. -/
def perform (s : StoreState) : StoreEvent → Option StoreState
  | .element scheduled copies =>
    match M.elements[s.handled]? with
    | none => none
    | some e =>
      let next := { s with handled := s.handled + 1 }
      match M.request e with
      | none => some next
      | some _ =>
        if copies ≤ min (M.redundancy - 1) (M.numServers - 1) then
          some { next with
            waiting := s.waiting ++ (if scheduled then [⟨s.handled, false⟩] else [])
              ++ List.replicate copies ⟨s.handled, true⟩ }
        else none
  | .response i code again =>
    match s.waiting[i]? with
    | none => none
    | some w =>
      let (verdict, result) := mmcStoredHandler code s.result
      let s := { s with result, responses := s.responses ++ [(w.element, code)] }
      if verdict = .done then some { s with waiting := s.waiting.eraseIdx i }
      else some (M.failover s i w again)
  | .failure i again =>
    match s.waiting[i]? with
    | none => none
    | some w => some (M.failover s i w again)

/-- What the operation returns, and the responses it got. -/
inductive Returns : List (Nat × Int) → ReturnValue → Prop
  | noServers (h : M.numServers = 0) : Returns [] (.bool false)
  | ran {events : List StoreEvent} {s : StoreState} (h : M.numServers ≠ 0)
      (run : performAll M.perform events {} = some s) (handled : s.handled = M.elements.length)
      (settled : s.waiting = []) : Returns s.responses s.result.orFalse

/-- **An honest report**: true is returned only if every element was stored by a server, false as soon as
    one was not. -/
def Honest (responses : List (Nat × Int)) (result : ReturnValue) : Prop :=
  (result = .bool true → ∀ i < M.elements.length, (i, MMC_OK) ∈ responses) ∧
    ((∃ i < M.elements.length, (i, MMC_OK) ∉ responses) → result = .bool false)

/-- A response that `mmc_stored_handler` reports as false. -/
def Refusal (code : Int) : Prop :=
  code = MMC_RESPONSE_EXISTS ∨ code = MMC_RESPONSE_OUT_OF_MEMORY ∨ code = MMC_RESPONSE_TOO_LARGE ∨
    code = MMC_RESPONSE_CLIENT_ERROR

/-- An element that drops out: no server has stored it and none has refused it. -/
def DropsOut (responses : List (Nat × Int)) (i : Nat) : Prop :=
  ∀ code, (i, code) ∈ responses → code ≠ MMC_OK ∧ ¬Refusal code

/-- The condition: where an element drops out, another one is refused or none is stored. -/
def DropsShow (responses : List (Nat × Int)) : Prop :=
  (∃ i < M.elements.length, DropsOut responses i) →
    (∃ r ∈ responses, Refusal r.2) ∨ ∀ r ∈ responses, r.2 ≠ MMC_OK

end MultiStore

/-! ## The return value -/

/-- The return value after some responses. -/
def StoredResult (responses : List (Nat × Int)) (result : ReturnValue) : Prop :=
  (∃ r ∈ responses, MultiStore.Refusal r.2) ∧ result = .bool false ∨
  (∀ r ∈ responses, ¬MultiStore.Refusal r.2) ∧ (∃ r ∈ responses, r.2 = MMC_OK) ∧ result = .bool true ∨
  (∀ r ∈ responses, ¬MultiStore.Refusal r.2) ∧ (∀ r ∈ responses, r.2 ≠ MMC_OK) ∧ result = .null

theorem not_refusal_ok : ¬MultiStore.Refusal MMC_OK := by
  unfold MultiStore.Refusal
  decide

theorem mmcStoredHandler_ok (result : ReturnValue) :
    mmcStoredHandler MMC_OK result = (.done, if result = .null then .bool true else result) :=
  if_pos rfl

theorem mmcStoredHandler_refusal {code : Int} (h : MultiStore.Refusal code) (result : ReturnValue) :
    mmcStoredHandler code result = (.done, .bool false) := by
  have hok : code ≠ MMC_OK := fun heq => not_refusal_ok (heq ▸ h)
  exact (if_neg hok).trans (if_pos h)

theorem mmcStoredHandler_other {code : Int} (hok : code ≠ MMC_OK) (h : ¬MultiStore.Refusal code)
    (result : ReturnValue) : mmcStoredHandler code result = (.requestFailure, result) :=
  (if_neg hok).trans (if_neg h)

/-- **One response** keeps the return value what the responses say. -/
theorem StoredResult.respond {responses : List (Nat × Int)} {result : ReturnValue}
    (h : StoredResult responses result) (i : Nat) (code : Int) :
    StoredResult (responses ++ [(i, code)]) (mmcStoredHandler code result).2 := by
  have hmem : ∀ P : Nat × Int → Prop, (∃ r ∈ responses ++ [(i, code)], P r) ↔
      (∃ r ∈ responses, P r) ∨ P (i, code) := by simp [or_and_right, exists_or]
  have hall : ∀ P : Nat × Int → Prop, (∀ r ∈ responses ++ [(i, code)], P r) ↔
      (∀ r ∈ responses, P r) ∧ P (i, code) := by simp [or_imp, forall_and]
  unfold StoredResult
  rw [hmem, hall, hmem, hall]
  by_cases hok : code = MMC_OK
  · subst hok
    rw [mmcStoredHandler_ok]
    rcases h with ⟨href, rfl⟩ | ⟨hno, hsome, rfl⟩ | ⟨hno, -, rfl⟩
    · exact Or.inl ⟨Or.inl href, rfl⟩
    · exact Or.inr (Or.inl ⟨⟨hno, not_refusal_ok⟩, Or.inl hsome, rfl⟩)
    · exact Or.inr (Or.inl ⟨⟨hno, not_refusal_ok⟩, Or.inr rfl, rfl⟩)
  · by_cases hrefused : MultiStore.Refusal code
    · rw [mmcStoredHandler_refusal hrefused]
      exact Or.inl ⟨Or.inr hrefused, rfl⟩
    · rw [mmcStoredHandler_other hok hrefused]
      rcases h with ⟨href, rfl⟩ | ⟨hno, hsome, rfl⟩ | ⟨hno, hnone, rfl⟩
      · exact Or.inl ⟨Or.inl href, rfl⟩
      · exact Or.inr (Or.inl ⟨⟨hno, hrefused⟩, Or.inl hsome, rfl⟩)
      · exact Or.inr (Or.inr ⟨⟨hno, hrefused⟩, ⟨hnone, hok⟩, rfl⟩)

namespace MultiStore

variable {δ ω : Type} {M : MultiStore δ ω}

theorem failover_result (s : StoreState) (i : Nat) (w : WaitingStore) (again : Bool) :
    (M.failover s i w again).result = s.result ∧ (M.failover s i w again).responses = s.responses := by
  unfold failover
  split <;> exact ⟨rfl, rfl⟩

/-- **One step** keeps the return value what the responses say: it is written with a response only. -/
theorem perform_storedResult {s s' : StoreState} {event : StoreEvent}
    (h : StoredResult s.responses s.result) (hstep : M.perform s event = some s') :
    StoredResult s'.responses s'.result := by
  cases event with
  | element scheduled copies =>
    simp only [perform] at hstep
    split at hstep
    · cases hstep
    · split at hstep
      · cases hstep
        exact h
      · split at hstep
        · cases hstep
          exact h
        · cases hstep
  | response i code again =>
    simp only [perform] at hstep
    split at hstep
    · cases hstep
    · next w hw =>
      have hresponded := h.respond w.element code
      split at hstep
      · cases hstep
        exact hresponded
      · cases hstep
        rw [(failover_result ..).1, (failover_result ..).2]
        exact hresponded
  | failure i again =>
    simp only [perform] at hstep
    split at hstep
    · cases hstep
    · cases hstep
      rwa [(failover_result ..).1, (failover_result ..).2]

/-- The value that is returned. -/
theorem Returns.result {responses : List (Nat × Int)} {result : ReturnValue}
    (h : M.Returns responses result) :
    (result = .bool true ∧ (∀ r ∈ responses, ¬Refusal r.2) ∧ ∃ r ∈ responses, r.2 = MMC_OK) ∨
      (result = .bool false ∧ ((∃ r ∈ responses, Refusal r.2) ∨ ∀ r ∈ responses, r.2 ≠ MMC_OK)) := by
  cases h with
  | noServers => exact Or.inr ⟨rfl, Or.inr fun r hr => by cases hr⟩
  | @ran events s _ hrun _ _ =>
    have hstart : StoredResult [] .null := Or.inr (Or.inr ⟨by simp, by simp, rfl⟩)
    have hresult : StoredResult s.responses s.result :=
      stable_performAll (fun s event s' => perform_storedResult) hstart hrun
    rcases hresult with ⟨hrefused, heq⟩ | ⟨hno, hok, heq⟩ | ⟨-, hnone, heq⟩
    · exact Or.inr ⟨by rw [heq]; rfl, Or.inl hrefused⟩
    · exact Or.inl ⟨by rw [heq]; rfl, hno, hok⟩
    · exact Or.inr ⟨by rw [heq]; rfl, Or.inr hnone⟩

/-- **When the report is honest.** -/
theorem honest_iff_dropsShow {responses : List (Nat × Int)} {result : ReturnValue}
    (h : M.Returns responses result) : M.Honest responses result ↔ M.DropsShow responses := by
  rcases h.result with ⟨rfl, hno, hok⟩ | ⟨rfl, hshows⟩
  · constructor
    · rintro ⟨hall, -⟩ ⟨i, hi, hdrops⟩
      exact absurd rfl (hdrops MMC_OK (hall rfl i hi)).1
    · intro hshow
      have hstored : ∀ i < M.elements.length, (i, MMC_OK) ∈ responses := by
        intro i hi
        by_contra hnot
        have hdrops : DropsOut responses i := fun code hcode =>
          ⟨fun heq => hnot (heq ▸ hcode), hno _ hcode⟩
        rcases hshow ⟨i, hi, hdrops⟩ with ⟨r, hr, href⟩ | hnone
        · exact hno r hr href
        · obtain ⟨r, hr, heq⟩ := hok
          exact hnone r hr heq
      exact ⟨fun _ => hstored, fun ⟨i, hi, hnot⟩ => absurd (hstored i hi) hnot⟩
  · exact iff_of_true ⟨(fun heq => by cases heq), fun _ => rfl⟩ fun _ => hshows

/-! ## Elements without a request -/

/-- What is known of the requests and the responses: they belong to elements that a request was made
    for. -/
def StoreState.FromRequests (M : MultiStore δ ω) (s : StoreState) : Prop :=
  (∀ w ∈ s.waiting, ∃ e, M.elements[w.element]? = some e ∧ M.request e ≠ none) ∧
    ∀ r ∈ s.responses, ∃ e, M.elements[r.1]? = some e ∧ M.request e ≠ none

theorem failover_fromRequests {s : StoreState} (h : StoreState.FromRequests M s) (i : Nat)
    (w : WaitingStore) (again : Bool) : StoreState.FromRequests M (M.failover s i w again) := by
  unfold failover
  split
  · exact h
  · exact ⟨fun w hw => h.1 w (List.mem_of_mem_eraseIdx hw), h.2⟩

theorem perform_fromRequests {s s' : StoreState} {event : StoreEvent}
    (h : StoreState.FromRequests M s) (hstep : M.perform s event = some s') :
    StoreState.FromRequests M s' := by
  cases event with
  | element scheduled copies =>
    simp only [perform] at hstep
    split at hstep
    · cases hstep
    · next e he =>
      split at hstep
      · cases hstep
        exact h
      · next q hq =>
        split at hstep
        · cases hstep
          refine ⟨fun w hw => ?_, h.2⟩
          have hrequest : ∃ e, M.elements[s.handled]? = some e ∧ M.request e ≠ none :=
            ⟨e, he, by rw [hq]; exact Option.some_ne_none q⟩
          rcases List.mem_append.mp hw with hw | hw
          · rcases List.mem_append.mp hw with hw | hw
            · exact h.1 w hw
            · cases scheduled with
              | false => cases hw
              | true =>
                obtain rfl := List.mem_singleton.mp hw
                exact hrequest
          · obtain rfl := List.eq_of_mem_replicate hw
            exact hrequest
        · cases hstep
  | response i code again =>
    simp only [perform] at hstep
    split at hstep
    · cases hstep
    · next w hw =>
      have hresponded : ∀ result, StoreState.FromRequests M
          { s with result, responses := s.responses ++ [(w.element, code)] } := by
        refine fun result => ⟨h.1, fun r hr => ?_⟩
        rcases List.mem_append.mp hr with hr | hr
        · exact h.2 r hr
        · obtain rfl := List.mem_singleton.mp hr
          exact h.1 w (List.mem_of_getElem? hw)
      split at hstep
      · cases hstep
        exact ⟨fun w hw => h.1 w (List.mem_of_mem_eraseIdx hw), (hresponded s.result).2⟩
      · cases hstep
        exact failover_fromRequests (hresponded _) i w again
  | failure i again =>
    simp only [perform] at hstep
    split at hstep
    · cases hstep
    · cases hstep
      exact failover_fromRequests h ..

/-- **An element with an invalid key, or a value that cannot be packed,** drops out. -/
theorem Returns.dropsOut {responses : List (Nat × Int)} {result : ReturnValue}
    (h : M.Returns responses result) {i : Nat} {e : ElementKey × Zval δ ω}
    (he : M.elements[i]? = some e) (hrequest : M.request e = none) : DropsOut responses i := by
  intro code hcode
  cases h with
  | noServers => cases hcode
  | ran _ hrun _ _ =>
    have hfrom := stable_performAll (fun s event s' => perform_fromRequests)
      (show StoreState.FromRequests M {} from ⟨by simp, by simp⟩) hrun
    obtain ⟨e', he', hsome⟩ := hfrom.2 _ hcode
    rw [he] at he'
    cases he'
    exact absurd hrequest hsome

/-! ## Two elements -/

/-- A set for the elements, on one server. -/
def setting (elements : List (ElementKey × Zval Unit Unit)) : MultiStore Unit Unit where
  protocol := .ascii
  codec := sampleCodec
  compression := { threshold := 0, resultLen := fun n => n }
  keyPrefix := []
  numServers := 1
  redundancy := 1
  allowFailover := true
  op := .set
  flags := 0
  exptime := 0
  cas := 0
  elements

/-- Both elements are stored. -/
theorem setting_both_honest :
    (setting [(.string [97], .long 1), (.index 7, .long 2)]).Returns [(1, MMC_OK), (0, MMC_OK)]
      (.bool true) ∧
    (setting [(.string [97], .long 1), (.index 7, .long 2)]).Honest [(1, MMC_OK), (0, MMC_OK)]
      (.bool true) := by
  have hrun : performAll (setting [(.string [97], .long 1), (.index 7, .long 2)]).perform
      [.element true 0, .element true 0, .response 1 MMC_OK false, .response 0 MMC_OK false] {}
        = some ⟨.bool true, 2, [], [(1, MMC_OK), (0, MMC_OK)]⟩ := by decide +kernel
  have hreturns : (setting [(.string [97], .long 1), (.index 7, .long 2)]).Returns
      [(1, MMC_OK), (0, MMC_OK)] (.bool true) := .ran (by decide) hrun rfl rfl
  refine ⟨hreturns, (honest_iff_dropsShow hreturns).mpr ?_⟩
  rintro ⟨i, hi, hdrops⟩
  have hone : i = 0 ∨ i = 1 := by
    have hlt : i < 2 := hi
    omega
  rcases hone with rfl | rfl
  · exact absurd rfl (hdrops MMC_OK (by decide)).1
  · exact absurd rfl (hdrops MMC_OK (by decide)).1

/-- The key of the first element is empty. The other one is stored, and true is returned. -/
theorem setting_invalidKey_not_honest :
    ∃ responses result,
      (setting [(.string [], .long 1), (.string [97], .long 2)]).Returns responses result ∧
        ¬(setting [(.string [], .long 1), (.string [97], .long 2)]).Honest responses result := by
  have hrun : performAll (setting [(.string [], .long 1), (.string [97], .long 2)]).perform
      [.element true 0, .element true 0, .response 0 MMC_OK false] {}
        = some ⟨.bool true, 2, [], [(1, MMC_OK)]⟩ := by decide +kernel
  refine ⟨[(1, MMC_OK)], .bool true, .ran (by decide) hrun rfl rfl, fun hhonest => ?_⟩
  exact absurd (hhonest.1 rfl 0 (by decide)) (by decide)

end MultiStore

end PeclMemcache
