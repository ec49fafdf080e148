import PeclMemcache.Select

set_option autoImplicit false

/-! # The descriptor array of `mmc_pool_poll`

While a round is served, user code can run further operations on the same pool, and so further calls
of `mmc_pool_poll`: the first of them helps to complete the round, later ones start rounds of their
own. All of them use the one pointer `pool->pollfds`. Modelled are the calls that are under way, with
the control flow of each, and what happens to every array that was ever allocated; which servers a
call visits, what their handlers return and where user code runs is left open. -/

namespace PeclMemcache

/-! ## Calls and arrays -/

/-- Where a call of `mmc_pool_poll` stands: in the loops that follow a timeout or an error, between
    two servers, in a handler of a request (`mmc_request_send` or `parse`), in the `switch` over its
    result, or in the `switch` over a failed `read`. -/
inductive PollPc
  | timingOut
  | scanning
  | handling
  | switching
  | unread
  deriving DecidableEq, Repr

/-- A call that is under way, with its local variable `should_free_fds`. Calls are numbered in the
    order they begin. -/
structure PollCall where
  call : Nat
  pc : PollPc
  shouldFreeFds : Bool
  deriving DecidableEq, Repr

/-- An array that `mmc_pool_poll` has allocated: the calls that have freed it, and whether it was used
    after that. -/
structure FdArray where
  owner : Nat := 0
  freedBy : List Nat := []
  usedAfter : Bool := false
  deriving DecidableEq, Repr

/-- The pool, with the calls under way, the innermost first. `pollfds` is the number of the array the
    pointer of the pool leads to. -/
structure PollState where
  inSelect : Bool := false
  pollfds : Nat := 0
  allocated : Nat := 0
  arrays : Nat → FdArray := fun _ => {}
  stack : List PollCall := []
  calls : Nat := 0

/-- What the loops find at a server: no event, data that cannot be read, or a request to serve. -/
inductive PollVisit
  | waiting
  | unread
  | served
  deriving DecidableEq, Repr

def PollVisit.pc : PollVisit → PollPc
  | .waiting => .scanning
  | .unread => .unread
  | .served => .handling

/-- The steps of the innermost call, and a further call from within it. `flag` is the value that
    `should_free_fds` has before anything is assigned to it. -/
inductive PollAction
  | call (flag : Bool)
  | startLoops
  | visit (v : PollVisit)
  | check
  | again
  | next
  | finish
  deriving DecidableEq, Repr

namespace PollState

variable (s : PollState)

/-- `pool->pollfds = emalloc(memsize)`. The array is filled and polled before anything else runs. -/
def alloc (call : Nat) : PollState :=
  { s with
    pollfds := s.allocated
    allocated := s.allocated + 1
    arrays := Function.update s.arrays s.allocated { owner := call } }

/-- An access to `pool->pollfds`. -/
def use : PollState :=
  let x := s.arrays s.pollfds
  { s with
    arrays := Function.update s.arrays s.pollfds
      { x with usedAfter := x.usedAfter || !x.freedBy.isEmpty } }

/-- `efree(pool->pollfds)`. -/
def efree (call : Nat) : PollState :=
  let x := s.arrays s.pollfds
  { s with arrays := Function.update s.arrays s.pollfds { x with freedBy := call :: x.freedBy } }

/-- The return of the innermost call. -/
def leave (c : PollCall) (rest : List PollCall) : PollState :=
  let s := { s with stack := rest }
  if c.shouldFreeFds then s.efree c.call else s

/-- The beginning of a call: it helps to complete the previous run, or sets up a round. -/
def begin (flag : Bool) : PollState :=
  let call := s.calls
  if s.inSelect then
    -- Nothing is assigned to `should_free_fds` on this branch.
    { s with calls := call + 1, stack := ⟨call, .scanning, flag⟩ :: s.stack }
  else
    { s.alloc call with calls := call + 1, stack := ⟨call, .timingOut, true⟩ :: s.stack }

/-- The innermost call goes on at another place. -/
def turn (c : PollCall) (rest : List PollCall) (pc : PollPc) : PollState :=
  { s with stack := { c with pc } :: rest }

/-- A step, if it is possible. User code runs in handlers, in failure callbacks and in error handlers,
    so a further call can begin anywhere. -/
def perform (a : PollAction) : Option PollState :=
  match a, s.stack with
  | .call flag, _ => some (s.begin flag)
  | _, [] => none
  | a, c :: rest =>
    match a, c.pc with
    | .startLoops, .timingOut => some ({ s with inSelect := true }.turn c rest .scanning)
    | .visit v, .scanning => some (s.use.turn c rest v.pc)
    | .check, .handling =>
      -- Someone may have helped to complete the run.
      if s.inSelect then some (s.turn c rest .switching) else some (s.leave c rest)
    | .again, .switching => some (s.turn c rest .handling)
    | .next, .switching => some (s.turn c rest .scanning)
    | .next, .unread => some (s.turn c rest .scanning)
    | .finish, .scanning => some ({ s with inSelect := false }.leave c rest)
    | _, _ => none

/-- Some steps in a row. -/
def performAll : List PollAction → PollState → Option PollState
  | [], s => some s
  | a :: rest, s =>
    match s.perform a with
    | some s => performAll rest s
    | none => none

/-- Each of the steps is allowed where it is made. -/
def Obeys (allowed : PollState → PollAction → Prop) : List PollAction → PollState → Prop
  | [], _ => True
  | a :: rest, s =>
    allowed s a ∧
      match s.perform a with
      | some s => Obeys allowed rest s
      | none => True

instance decidableObeys (allowed : PollState → PollAction → Prop)
    [∀ s a, Decidable (allowed s a)] :
    ∀ (actions : List PollAction) (s : PollState), Decidable (s.Obeys allowed actions)
  | [], _ => .isTrue trivial
  | a :: rest, s =>
    match h : s.perform a with
    | some s' =>
      have := decidableObeys allowed rest s'
      decidable_of_iff (allowed s a ∧ s'.Obeys allowed rest) (by rw [Obeys, h])
    | none => decidable_of_iff (allowed s a ∧ True) (by rw [Obeys, h])

/-! ## Freeing exactly once -/

/-- No array was used after it was freed, none was freed twice or by a call that the owner is nested
    in, and once no call is under way all have been freed. -/
structure FreedOnce : Prop where
  unused : ∀ a < s.allocated, (s.arrays a).usedAfter = false
  once : ∀ a < s.allocated, (s.arrays a).freedBy.length ≤ 1
  notOuter : ∀ a < s.allocated, ∀ call ∈ (s.arrays a).freedBy, (s.arrays a).owner ≤ call
  freed : s.stack = [] → ∀ a < s.allocated, (s.arrays a).freedBy.length = 1

/-- A nested call of `mmc_pool_poll` only helps to complete the round, and finds 0 in
    `should_free_fds`. -/
def Helps : PollAction → Prop
  | .call flag => s.stack = [] ∨ (s.inSelect = true ∧ flag = false)
  | _ => True

instance (a : PollAction) : Decidable (s.Helps a) := by
  cases a <;> unfold Helps <;> infer_instance

/-! ## What a step can do -/

variable {s}

/-- The innermost call has moved on, perhaps after an access to the array or with `in_select` set, or
    it has returned with `in_select` cleared. -/
def Proceeds (s s' : PollState) : Prop :=
  ∃ c rest, s.stack = c :: rest ∧
    ((∃ b pc, s' = ({ s with inSelect := b } : PollState).turn c rest pc) ∨
      (∃ pc, s' = s.use.turn c rest pc) ∨
      s' = ({ s with inSelect := false } : PollState).leave c rest)

theorem perform_call (s : PollState) (flag : Bool) : s.perform (.call flag) = some (s.begin flag) := by
  unfold perform
  cases s.stack <;> rfl

/-- Every other step is one of the innermost call. -/
theorem perform_proceeds {a : PollAction} {s' : PollState} (ha : ∀ flag, a ≠ .call flag)
    (h : s.perform a = some s') : s.Proceeds s' := by
  unfold perform at h
  cases hstack : s.stack with
  | nil =>
    rw [hstack] at h
    cases a with
    | call flag => exact absurd rfl (ha flag)
    | _ => cases h
  | cons c rest =>
    refine ⟨c, rest, hstack, ?_⟩
    rw [hstack] at h
    split at h
    · exact absurd rfl (ha _)
    · cases h
    · next heq =>
      cases heq
      split at h
      · exact Or.inl ⟨true, _, (Option.some.inj h).symm⟩
      · exact Or.inr (Or.inl ⟨_, (Option.some.inj h).symm⟩)
      · split at h
        · exact Or.inl ⟨s.inSelect, _, (Option.some.inj h).symm⟩
        · next hdone =>
          have hsame : ({ s with inSelect := false } : PollState) = s := by
            rw [Bool.not_eq_true] at hdone
            rw [← hdone]
          right; right
          rw [hsame]
          exact (Option.some.inj h).symm
      · exact Or.inl ⟨s.inSelect, _, (Option.some.inj h).symm⟩
      · exact Or.inl ⟨s.inSelect, _, (Option.some.inj h).symm⟩
      · exact Or.inl ⟨s.inSelect, _, (Option.some.inj h).symm⟩
      · exact Or.inr (Or.inr (Option.some.inj h).symm)
      · cases h

/-! ## Calls that only help -/

/-- The array has not been freed. -/
def Live (x : FdArray) : Prop := x.freedBy = [] ∧ x.usedAfter = false

/-- The array was freed once, by the call that allocated it, and not used after that. -/
def Released (x : FdArray) : Prop := x.freedBy = [x.owner] ∧ x.usedAfter = false

/-- The calls under way if none of them has spoiled the round: `outer` holds the current array, and
    the others do not free it. -/
structure Serving (s : PollState) (helpers : List PollCall) (outer : PollCall) : Prop where
  stack : s.stack = helpers ++ [outer]
  keeps : ∀ c ∈ helpers, c.shouldFreeFds = false
  frees : outer.shouldFreeFds = true
  current : s.pollfds < s.allocated
  live : Live (s.arrays s.pollfds)
  owned : (s.arrays s.pollfds).owner = outer.call
  old : ∀ a < s.allocated, a ≠ s.pollfds → Released (s.arrays a)

/-- Between the calls, every array is released. -/
inductive Sound (s : PollState) : Prop
  | idle (nocalls : s.stack = []) (closed : s.inSelect = false)
      (old : ∀ a < s.allocated, Released (s.arrays a))
  | busy (helpers : List PollCall) (outer : PollCall) (serving : s.Serving helpers outer)

theorem sound_start : Sound {} := by
  refine .idle rfl rfl ?_
  intro a ha
  exact absurd ha (Nat.not_lt_zero a)

theorem Sound.begin (h : Sound s) {flag : Bool} (hhelps : s.Helps (.call flag)) :
    Sound (s.begin flag) := by
  cases h with
  | idle nocalls closed old =>
    have hbegin : s.begin flag = { s.alloc s.calls with
        calls := s.calls + 1, stack := [⟨s.calls, .timingOut, true⟩] } := by
      unfold PollState.begin
      rw [closed, if_neg Bool.false_ne_true, nocalls]
    rw [hbegin]
    refine .busy [] ⟨s.calls, .timingOut, true⟩ ⟨rfl, by simp, rfl, Nat.lt_succ_self _, ?_, ?_, ?_⟩
    · simp [alloc, Live]
    · simp [alloc]
    · intro a ha hne
      have hold : a < s.allocated := Nat.lt_of_le_of_ne (Nat.lt_succ_iff.mp ha) hne
      simpa [alloc, Function.update_of_ne (show a ≠ s.allocated from hne)] using old a hold
  | busy helpers outer serving =>
    rcases hhelps with hnone | ⟨hin, rfl⟩
    · simp [serving.stack] at hnone
    · have hbegin : s.begin false = { s with
          calls := s.calls + 1, stack := ⟨s.calls, .scanning, false⟩ :: s.stack } := by
        unfold PollState.begin
        rw [hin, if_pos rfl]
      rw [hbegin]
      refine .busy (⟨s.calls, .scanning, false⟩ :: helpers) outer
        { serving with stack := ?_, keeps := ?_ }
      · rw [serving.stack]
        rfl
      · intro c hc
        rcases List.mem_cons.mp hc with rfl | hc
        · rfl
        · exact serving.keeps c hc

/-- The innermost call is the outermost one or one that only helps. -/
theorem split_stack {helpers rest : List PollCall} {outer c : PollCall}
    (h : helpers ++ [outer] = c :: rest) :
    (helpers = [] ∧ c = outer ∧ rest = []) ∨
      ∃ others, helpers = c :: others ∧ rest = others ++ [outer] := by
  cases helpers with
  | nil =>
    simp only [List.nil_append, List.cons.injEq] at h
    exact Or.inl ⟨rfl, h.1.symm, h.2.symm⟩
  | cons c' others =>
    simp only [List.cons_append, List.cons.injEq] at h
    exact Or.inr ⟨others, by rw [h.1], h.2.symm⟩

theorem Serving.turn {helpers rest : List PollCall} {outer c : PollCall}
    (h : s.Serving helpers outer) (hstack : s.stack = c :: rest) (b : Bool) (pc : PollPc) :
    Sound (({ s with inSelect := b } : PollState).turn c rest pc) := by
  rcases split_stack (h.stack.symm.trans hstack) with ⟨rfl, rfl, rfl⟩ | ⟨others, rfl, rfl⟩
  · exact .busy [] { c with pc } { h with stack := rfl }
  · refine .busy ({ c with pc } :: others) outer { h with stack := rfl, keeps := ?_ }
    intro c' hc'
    rcases List.mem_cons.mp hc' with rfl | hc'
    · exact h.keeps c List.mem_cons_self
    · exact h.keeps c' (List.mem_cons_of_mem c hc')

/-- An access to an array that is not freed changes nothing. -/
theorem use_of_live (live : Live (s.arrays s.pollfds)) : s.use = s := by
  have hsame : ∀ x : FdArray, Live x →
      { x with usedAfter := x.usedAfter || !x.freedBy.isEmpty } = x := by
    rintro ⟨owner, freedBy, usedAfter⟩ ⟨hfreed, hused⟩
    dsimp only at hfreed hused
    rw [hfreed, hused]
    rfl
  replace hsame := hsame _ live
  unfold use
  dsimp only
  rw [hsame, Function.update_eq_self]

theorem Serving.leave {helpers rest : List PollCall} {outer c : PollCall}
    (h : s.Serving helpers outer) (hstack : s.stack = c :: rest) :
    Sound (({ s with inSelect := false } : PollState).leave c rest) := by
  unfold PollState.leave
  dsimp only
  rcases split_stack (h.stack.symm.trans hstack) with ⟨rfl, rfl, rfl⟩ | ⟨others, rfl, rfl⟩
  · rw [if_pos h.frees]
    refine .idle rfl rfl ?_
    intro a ha
    by_cases hcurrent : a = s.pollfds
    · subst hcurrent
      simp [efree, Released, h.live.1, h.live.2, h.owned]
    · simpa [efree, Function.update_of_ne hcurrent] using h.old a ha hcurrent
  · rw [if_neg (by simp [h.keeps c List.mem_cons_self])]
    exact .busy others outer
      { h with stack := rfl, keeps := fun c' hc' => h.keeps c' (List.mem_cons_of_mem c hc') }

theorem Sound.perform (h : Sound s) {a : PollAction} (hhelps : s.Helps a) {s' : PollState}
    (hstep : s.perform a = some s') : Sound s' := by
  by_cases hcall : ∃ flag, a = .call flag
  · obtain ⟨flag, rfl⟩ := hcall
    rw [perform_call] at hstep
    cases hstep
    exact h.begin hhelps
  · obtain ⟨c, rest, hstack, hnext⟩ :=
      perform_proceeds (fun flag heq => hcall ⟨flag, heq⟩) hstep
    cases h with
    | idle nocalls => simp [nocalls] at hstack
    | busy helpers outer serving =>
      rcases hnext with ⟨b, pc, rfl⟩ | ⟨pc, rfl⟩ | rfl
      · exact serving.turn hstack b pc
      · rw [use_of_live serving.live]
        exact serving.turn hstack s.inSelect pc
      · exact serving.leave hstack

theorem Sound.performAll {actions : List PollAction} {s s' : PollState} (h : Sound s)
    (hobeys : s.Obeys Helps actions) (hrun : performAll actions s = some s') : Sound s' := by
  induction actions generalizing s with
  | nil =>
    cases hrun
    exact h
  | cons a rest ih =>
    rw [PollState.performAll] at hrun
    cases hstep : s.perform a with
    | none => simp [hstep] at hrun
    | some s'' =>
      rw [hstep] at hrun
      rw [Obeys, hstep] at hobeys
      exact ih (h.perform hobeys.1 hstep) hobeys.2 hrun

theorem Sound.freedOnce (h : Sound s) : s.FreedOnce := by
  -- Whether an array is live or released, it is not used after it was freed, nor freed twice.
  have hall : ∀ a < s.allocated, Live (s.arrays a) ∨ Released (s.arrays a) := by
    intro a ha
    cases h with
    | idle _ _ old => exact Or.inr (old a ha)
    | busy _ _ serving =>
      by_cases hcurrent : a = s.pollfds
      · exact Or.inl (hcurrent ▸ serving.live)
      · exact Or.inr (serving.old a ha hcurrent)
  constructor
  · intro a ha
    exact (hall a ha).elim And.right And.right
  · intro a ha
    rcases hall a ha with h | h <;> simp [h.1]
  · intro a ha call hcall
    rcases hall a ha with h | h
    · simp [h.1] at hcall
    · rw [h.1] at hcall
      exact Nat.le_of_eq (List.mem_singleton.mp hcall).symm
  · intro hdone a ha
    cases h with
    | idle _ _ old => simp [(old a ha).1]
    | busy _ _ serving => simp [serving.stack] at hdone

/-! ## Any other nested call -/

/-- The outermost call frees, and it holds an array that was allocated. -/
structure Rooted (s : PollState) : Prop where
  closed : s.stack = [] → s.inSelect = false
  current : s.stack ≠ [] → s.pollfds < s.allocated
  frees : ∀ front outer, s.stack = front ++ [outer] → outer.shouldFreeFds = true

/-- Some array was freed twice. -/
def FreedTwice (s : PollState) : Prop := ∃ a < s.allocated, 2 ≤ (s.arrays a).freedBy.length

/-- The outermost call will free an array twice: the current one has been freed already, or will be by
    a nested call. -/
def Doomed (s : PollState) : Prop :=
  ∃ front outer, s.stack = front ++ [outer] ∧
    ((s.arrays s.pollfds).freedBy ≠ [] ∨ ∃ c ∈ front, c.shouldFreeFds = true)

theorem rooted_start : Rooted {} where
  closed _ := rfl
  current h := absurd rfl h
  frees front outer h := by simp at h

theorem leave_fields (s : PollState) (c : PollCall) (rest : List PollCall) :
    (s.leave c rest).stack = rest ∧ (s.leave c rest).inSelect = s.inSelect ∧
      (s.leave c rest).pollfds = s.pollfds ∧ (s.leave c rest).allocated = s.allocated := by
  unfold PollState.leave
  dsimp only
  split <;> exact ⟨rfl, rfl, rfl, rfl⟩

theorem Rooted.begin (h : Rooted s) (flag : Bool) : Rooted (s.begin flag) := by
  unfold PollState.begin
  dsimp only
  split
  · next hin =>
    have hbusy : s.stack ≠ [] := fun hnil => by simp [h.closed hnil] at hin
    refine ⟨nofun, fun _ => h.current hbusy, ?_⟩
    intro front outer hstack
    rcases split_stack hstack.symm with ⟨-, -, hrest⟩ | ⟨others, -, hrest⟩
    · exact absurd hrest hbusy
    · exact h.frees others outer hrest
  · refine ⟨nofun, fun _ => Nat.lt_succ_self _, ?_⟩
    intro front outer hstack
    rcases split_stack hstack.symm with ⟨-, rfl, -⟩ | ⟨others, -, hrest⟩
    · rfl
    · exact h.frees others outer hrest

theorem Rooted.turn (h : Rooted s) {c : PollCall} {rest : List PollCall}
    (hstack : s.stack = c :: rest) (b : Bool) (pc : PollPc) :
    Rooted (({ s with inSelect := b } : PollState).turn c rest pc) := by
  refine ⟨nofun, fun _ => h.current (by simp [hstack]), ?_⟩
  intro front outer hstack'
  rcases split_stack hstack'.symm with ⟨-, rfl, rfl⟩ | ⟨others, -, rfl⟩
  · exact h.frees [] c hstack
  · exact h.frees (c :: others) outer hstack

theorem Rooted.leave (h : Rooted s) {c : PollCall} {rest : List PollCall}
    (hstack : s.stack = c :: rest) :
    Rooted (({ s with inSelect := false } : PollState).leave c rest) := by
  obtain ⟨hrest, hin, hpollfds, hallocated⟩ :=
    leave_fields ({ s with inSelect := false } : PollState) c rest
  constructor
  · intro _
    exact hin
  · intro _
    rw [hpollfds, hallocated]
    exact h.current (by simp [hstack])
  · intro front outer hfront
    rw [hrest] at hfront
    exact h.frees (c :: front) outer (by rw [hstack, hfront]; rfl)

theorem Rooted.perform (h : Rooted s) {a : PollAction} {s' : PollState}
    (hstep : s.perform a = some s') : Rooted s' := by
  by_cases hcall : ∃ flag, a = .call flag
  · obtain ⟨flag, rfl⟩ := hcall
    rw [perform_call] at hstep
    cases hstep
    exact h.begin flag
  · obtain ⟨c, rest, hstack, ⟨b, pc, rfl⟩ | ⟨pc, rfl⟩ | rfl⟩ :=
      perform_proceeds (fun flag heq => hcall ⟨flag, heq⟩) hstep
    · exact h.turn hstack b pc
    · have hused : Rooted s.use := ⟨h.closed, h.current, h.frees⟩
      exact hused.turn hstack s.inSelect pc
    · exact h.leave hstack

theorem use_freedBy (s : PollState) (a : Nat) : (s.use.arrays a).freedBy = (s.arrays a).freedBy := by
  unfold use
  dsimp only
  by_cases hcurrent : a = s.pollfds
  · rw [hcurrent, Function.update_self]
  · rw [Function.update_of_ne hcurrent]

theorem efree_freedBy (s : PollState) (call : Nat) :
    ((s.efree call).arrays s.pollfds).freedBy = call :: (s.arrays s.pollfds).freedBy := by
  unfold efree
  dsimp only
  rw [Function.update_self]

theorem efree_freedBy_length (s : PollState) (call a : Nat) :
    (s.arrays a).freedBy.length ≤ ((s.efree call).arrays a).freedBy.length := by
  by_cases hcurrent : a = s.pollfds
  · rw [hcurrent, efree_freedBy]
    exact Nat.le_succ _
  · unfold efree
    dsimp only
    rw [Function.update_of_ne hcurrent]

/-- No step takes back that an array was freed. -/
theorem freedBy_length_le {a : PollAction} {s' : PollState} (hstep : s.perform a = some s') :
    s.allocated ≤ s'.allocated ∧
      ∀ x < s.allocated, (s.arrays x).freedBy.length ≤ (s'.arrays x).freedBy.length := by
  by_cases hcall : ∃ flag, a = .call flag
  · obtain ⟨flag, rfl⟩ := hcall
    rw [perform_call] at hstep
    cases hstep
    unfold PollState.begin
    dsimp only
    split
    · exact ⟨Nat.le_refl _, fun x _ => Nat.le_refl _⟩
    · refine ⟨Nat.le_succ _, ?_⟩
      intro x hx
      unfold alloc
      dsimp only
      rw [Function.update_of_ne (Nat.ne_of_lt hx)]
  · obtain ⟨c, rest, -, ⟨b, pc, rfl⟩ | ⟨pc, rfl⟩ | rfl⟩ :=
      perform_proceeds (fun flag heq => hcall ⟨flag, heq⟩) hstep
    · exact ⟨Nat.le_refl _, fun x _ => Nat.le_refl _⟩
    · refine ⟨Nat.le_refl _, ?_⟩
      intro x _
      exact Nat.le_of_eq (congrArg List.length (use_freedBy s x).symm)
    · have hfields := leave_fields ({ s with inSelect := false } : PollState) c rest
      refine ⟨Nat.le_of_eq hfields.2.2.2.symm, ?_⟩
      intro x _
      unfold PollState.leave
      dsimp only
      split
      · exact efree_freedBy_length _ c.call x
      · exact Nat.le_refl _

theorem FreedTwice.perform (h : FreedTwice s) {a : PollAction} {s' : PollState}
    (hstep : s.perform a = some s') : FreedTwice s' := by
  obtain ⟨x, hx, htwice⟩ := h
  obtain ⟨hallocated, hlength⟩ := freedBy_length_le hstep
  exact ⟨x, Nat.lt_of_lt_of_le hx hallocated, Nat.le_trans htwice (hlength x hx)⟩

theorem Doomed.begin (h : Doomed s) (flag : Bool) : Doomed (s.begin flag) := by
  obtain ⟨front, outer, hstack, hdoom⟩ := h
  unfold PollState.begin
  dsimp only
  split
  · refine ⟨⟨s.calls, .scanning, flag⟩ :: front, outer, by rw [hstack]; rfl, ?_⟩
    refine hdoom.imp_right ?_
    rintro ⟨c, hc, hfrees⟩
    exact ⟨c, List.mem_cons_of_mem _ hc, hfrees⟩
  · exact ⟨⟨s.calls, .timingOut, true⟩ :: front, outer, by rw [hstack]; rfl,
      Or.inr ⟨_, List.mem_cons_self, rfl⟩⟩

theorem Doomed.turn (h : Doomed s) {c : PollCall} {rest : List PollCall}
    (hstack : s.stack = c :: rest) (b : Bool) (pc : PollPc) :
    Doomed (({ s with inSelect := b } : PollState).turn c rest pc) := by
  obtain ⟨front, outer, hfront, hdoom⟩ := h
  rcases split_stack (hfront.symm.trans hstack) with ⟨rfl, rfl, rfl⟩ | ⟨others, rfl, rfl⟩
  · refine ⟨[], { c with pc }, rfl, Or.inl (hdoom.resolve_right ?_)⟩
    rintro ⟨c', hc', -⟩
    cases hc'
  · refine ⟨{ c with pc } :: others, outer, rfl, hdoom.imp_right ?_⟩
    rintro ⟨c', hc', hfrees⟩
    rcases List.mem_cons.mp hc' with rfl | hc'
    · exact ⟨_, List.mem_cons_self, hfrees⟩
    · exact ⟨c', List.mem_cons_of_mem _ hc', hfrees⟩

/-- With the outermost call, the current array is freed once more. -/
theorem Doomed.leave (h : Doomed s) (hroot : Rooted s) {c : PollCall} {rest : List PollCall}
    (hstack : s.stack = c :: rest) :
    Doomed (({ s with inSelect := false } : PollState).leave c rest) ∨
      FreedTwice (({ s with inSelect := false } : PollState).leave c rest) := by
  obtain ⟨front, outer, hfront, hdoom⟩ := h
  have hcurrent : s.pollfds < s.allocated := hroot.current (by simp [hstack])
  unfold PollState.leave
  dsimp only
  rcases split_stack (hfront.symm.trans hstack) with ⟨rfl, rfl, rfl⟩ | ⟨others, rfl, rfl⟩
  · right
    have hfreed := hdoom.resolve_right (by simp)
    rw [if_pos (hroot.frees [] c hfront)]
    refine ⟨s.pollfds, hcurrent, ?_⟩
    have hafter := efree_freedBy ({ s with inSelect := false, stack := [] } : PollState) c.call
    rw [show (2 : Nat) = 1 + 1 from rfl]
    refine Nat.le_trans (Nat.succ_le_succ (List.length_pos_iff.mpr hfreed)) (Nat.le_of_eq ?_)
    exact (congrArg List.length hafter).symm
  · left
    split
    · refine ⟨others, outer, rfl, Or.inl ?_⟩
      have hafter := efree_freedBy
        ({ s with inSelect := false, stack := others ++ [outer] } : PollState) c.call
      intro hnil
      rw [show ({ s with inSelect := false, stack := others ++ [outer] } : PollState).pollfds
        = s.pollfds from rfl] at hafter
      exact List.cons_ne_nil _ _ (hafter.symm.trans hnil)
    · next hkeeps =>
      refine ⟨others, outer, rfl, hdoom.imp_right ?_⟩
      rintro ⟨c', hc', hfrees⟩
      rcases List.mem_cons.mp hc' with rfl | hc'
      · exact absurd hfrees hkeeps
      · exact ⟨c', hc', hfrees⟩

theorem Doomed.perform (h : Doomed s) (hroot : Rooted s) {a : PollAction} {s' : PollState}
    (hstep : s.perform a = some s') : Doomed s' ∨ FreedTwice s' := by
  by_cases hcall : ∃ flag, a = .call flag
  · obtain ⟨flag, rfl⟩ := hcall
    rw [perform_call] at hstep
    cases hstep
    exact Or.inl (h.begin flag)
  · obtain ⟨c, rest, hstack, ⟨b, pc, rfl⟩ | ⟨pc, rfl⟩ | rfl⟩ :=
      perform_proceeds (fun flag heq => hcall ⟨flag, heq⟩) hstep
    · exact Or.inl (h.turn hstack b pc)
    · have hused : Doomed s.use := by
        obtain ⟨front, outer, hfront, hdoom⟩ := h
        refine ⟨front, outer, hfront, hdoom.imp_left ?_⟩
        intro hfreed
        rwa [← use_freedBy s s.pollfds] at hfreed
      exact Or.inl (hused.turn hstack s.inSelect pc)
    · exact h.leave hroot hstack

theorem doomed_of_not_helps {a : PollAction} (hnot : ¬ s.Helps a) {s' : PollState}
    (hstep : s.perform a = some s') : Doomed s' := by
  cases a with
  | call flag =>
    rw [perform_call] at hstep
    cases hstep
    obtain ⟨hbusy, hflag⟩ := not_or.mp hnot
    obtain ⟨front, outer, hstack⟩ := (List.eq_nil_or_concat' s.stack).resolve_left hbusy
    unfold PollState.begin
    dsimp only
    split
    · next hin =>
      have htrue : flag = true := by
        cases flag with
        | false => exact absurd ⟨hin, rfl⟩ hflag
        | true => rfl
      exact ⟨⟨s.calls, .scanning, flag⟩ :: front, outer, by rw [hstack]; rfl,
        Or.inr ⟨_, List.mem_cons_self, htrue⟩⟩
    · exact ⟨⟨s.calls, .timingOut, true⟩ :: front, outer, by rw [hstack]; rfl,
        Or.inr ⟨_, List.mem_cons_self, rfl⟩⟩
  | _ => exact absurd trivial hnot

/-- A run in which an array is freed twice or is going to be. -/
theorem spoiled_performAll {actions : List PollAction} {s s' : PollState}
    (h : Doomed s ∨ FreedTwice s) (hroot : Rooted s) (hrun : performAll actions s = some s') :
    Doomed s' ∨ FreedTwice s' := by
  induction actions generalizing s with
  | nil =>
    cases hrun
    exact h
  | cons a rest ih =>
    rw [performAll] at hrun
    cases hstep : s.perform a with
    | none => simp [hstep] at hrun
    | some s'' =>
      rw [hstep] at hrun
      refine ih ?_ (hroot.perform hstep) hrun
      rcases h with hdoom | htwice
      · exact hdoom.perform hroot hstep
      · exact Or.inr (htwice.perform hstep)

/-- A run with a nested call that does not only help. -/
theorem spoiled_of_not_obeys {actions : List PollAction} {s s' : PollState}
    (hnot : ¬ s.Obeys Helps actions) (hroot : Rooted s) (hrun : performAll actions s = some s') :
    Doomed s' ∨ FreedTwice s' := by
  induction actions generalizing s with
  | nil => exact absurd trivial hnot
  | cons a rest ih =>
    rw [performAll] at hrun
    cases hstep : s.perform a with
    | none => simp [hstep] at hrun
    | some s'' =>
      rw [hstep] at hrun
      by_cases hhelps : s.Helps a
      · refine ih ?_ (hroot.perform hstep) hrun
        intro hobeys
        rw [Obeys, hstep] at hnot
        exact hnot ⟨hhelps, hobeys⟩
      · exact spoiled_performAll (Or.inl (doomed_of_not_helps hhelps hstep)) (hroot.perform hstep)
          hrun

/-- **Every array is freed exactly once**, by the call that allocated it, in every run whose nested
    calls only help to complete the round and find 0 in `should_free_fds`; and in no other run that
    comes to an end. -/
theorem freedOnce_iff_helps {actions : List PollAction} {s : PollState}
    (hrun : performAll actions {} = some s) :
    (({} : PollState).Obeys Helps actions → s.FreedOnce) ∧
      (s.stack = [] → s.FreedOnce → ({} : PollState).Obeys Helps actions) := by
  constructor
  · intro hobeys
    exact (sound_start.performAll hobeys hrun).freedOnce
  · intro hdone honce
    by_contra hnot
    rcases spoiled_of_not_obeys hnot rooted_start hrun with hdoom | ⟨a, ha, htwice⟩
    · obtain ⟨front, outer, hstack, -⟩ := hdoom
      simp [hdone] at hstack
    · exact absurd (Nat.le_trans htwice (honce.once a ha)) (by decide)

/-- A nested call in a handler that completes the round. -/
def helpedRound : List PollAction :=
  [.call false, .startLoops, .visit .served, .call false, .visit .waiting, .finish, .check]

theorem helpedRound_freedOnce :
    ∃ s, performAll helpedRound {} = some s ∧ s.stack = [] ∧ s.FreedOnce := by
  have hobeys : ({} : PollState).Obeys Helps helpedRound := by decide
  exact ⟨_, rfl, rfl, (freedOnce_iff_helps rfl).1 hobeys⟩

/-- An object whose `__wakeup` gets a further value: the nested `mmc_pool_run` completes the round and
    starts another one for its own request. -/
def nestedGet : List PollAction :=
  [.call false, .startLoops, .visit .served,
    .call false, .visit .waiting, .finish,
    .call false, .startLoops, .visit .served, .check, .next, .finish,
    .check]

/-- The outer call frees the array of the nested round once more. -/
theorem nestedGet_not_freedOnce :
    ∃ s, performAll nestedGet {} = some s ∧ s.stack = [] ∧ ¬ s.FreedOnce := by
  refine ⟨_, rfl, rfl, ?_⟩
  intro h
  have hlength : 2 ≤ 1 := h.once 1 (by decide)
  exact absurd hlength (by decide)

end PollState

end PeclMemcache
