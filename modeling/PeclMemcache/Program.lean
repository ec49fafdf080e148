import PeclMemcache.Wp
import PeclMemcache.Failover

set_option autoImplicit false

/-! # Rules for the primitive operations

The precondition of each primitive operation of `PoolM`. -/

namespace PeclMemcache

open Stateful

variable (E : Env) (X : World → Prop)

@[simp]
theorem wp_nullPointer {α : Type} (Q : α → World → Prop) (w : World) :
    wp (nullPointer : PoolM α) Q X w ↔ X w := wp_of_error rfl Q X

@[simp]
theorem wp_outOfFuel {α : Type} (Q : α → World → Prop) (w : World) :
    wp (outOfFuel : PoolM α) Q X w ↔ X w := wp_of_error rfl Q X

@[simp]
theorem wp_ask {α : Type} (answer : Nat → α) (Q : α → World → Prop) (w : World) :
    wp (ask answer) Q X w ↔ Q (answer w.tick) { w with tick := w.tick + 1 } :=
  wp_of_ok rfl Q X

/-- A step that is not allowed ends the run. -/
@[simp]
theorem wp_step (s : Step) (Q : Unit → World → Prop) (w : World) :
    wp (step E s) Q X w ↔
      (E.allowed s w → Q () { w with log := s :: w.log }) ∧ (¬ E.allowed s w → X w) := by
  by_cases hs : E.allowed s w
  · have hok : step E s w = (.ok (), { w with log := s :: w.log }) := if_pos hs
    simp [wp_of_ok hok, hs]
  · have herror : step E s w = (.error .stopped, w) := if_neg hs
    simp [wp_of_error herror, hs]

@[simp]
theorem wp_getPool (Q : MmcPool → World → Prop) (w : World) :
    wp getPool Q X w ↔ Q w.pool w := wp_of_ok rfl Q X

@[simp]
theorem wp_modifyPool (f : MmcPool → MmcPool) (Q : Unit → World → Prop) (w : World) :
    wp (modifyPool f) Q X w ↔ Q () { w with pool := f w.pool } := wp_of_ok rfl Q X

@[simp]
theorem wp_getMmc (m : Mmc) (Q : MmcServer → World → Prop) (w : World) :
    wp (getMmc m) Q X w ↔ Q (w.mmc m) w := wp_of_ok rfl Q X

@[simp]
theorem wp_modifyMmc (m : Mmc) (f : MmcServer → MmcServer) (Q : Unit → World → Prop) (w : World) :
    wp (modifyMmc m f) Q X w ↔ Q () { w with mmc := Function.update w.mmc m (f (w.mmc m)) } :=
  wp_of_ok rfl Q X

@[simp]
theorem wp_getReq (r : ReqId) (Q : MmcRequest → World → Prop) (w : World) :
    wp (getReq r) Q X w ↔ Q (w.req r) w := wp_of_ok rfl Q X

@[simp]
theorem wp_modifyReq (r : ReqId) (f : MmcRequest → MmcRequest) (Q : Unit → World → Prop)
    (w : World) :
    wp (modifyReq r f) Q X w ↔ Q () { w with req := Function.update w.req r (f (w.req r)) } :=
  wp_of_ok rfl Q X

@[simp]
theorem wp_getCall (c : Nat) (Q : ApiCall → World → Prop) (w : World) :
    wp (getCall c) Q X w ↔ Q (w.call c) w := wp_of_ok rfl Q X

@[simp]
theorem wp_modifyCall (c : Nat) (f : ApiCall → ApiCall) (Q : Unit → World → Prop) (w : World) :
    wp (modifyCall c f) Q X w ↔ Q () { w with call := Function.update w.call c (f (w.call c)) } :=
  wp_of_ok rfl Q X

@[simp]
theorem wp_newRequest (Q : ReqId → World → Prop) (w : World) :
    wp newRequest Q X w ↔ Q w.nextReq { w with
      nextReq := w.nextReq + 1, req := Function.update w.req w.nextReq {} } :=
  wp_of_ok rfl Q X

@[simp]
theorem wp_setInTimeout (b : Bool) (Q : Unit → World → Prop) (w : World) :
    wp (setInTimeout b) Q X w ↔ Q () { w with inTimeout := b } := wp_of_ok rfl Q X

@[simp]
theorem wp_getInTimeout (Q : Bool → World → Prop) (w : World) :
    wp getInTimeout Q X w ↔ Q w.inTimeout w := wp_of_ok rfl Q X

@[simp]
theorem wp_doWhen (c : Prop) [Decidable c] (x : PoolM Unit) (Q : Unit → World → Prop) (w : World) :
    wp (doWhen c x) Q X w ↔ (c → wp x Q X w) ∧ (¬ c → Q () w) := by
  unfold doWhen
  split
  · next h => simp [h]
  · next h => simp [h]

/-- What every item's run keeps, the run over the list keeps. -/
theorem wp_forEach {α : Type} {f : α → PoolM Unit} {I : World → Prop} {X : World → Prop}
    (hf : ∀ x w, I w → wp (f x) (fun _ => I) X w) (xs : List α) {w : World} (hw : I w) :
    wp (forEach f xs) (fun _ => I) X w := by
  induction xs generalizing w with
  | nil => simpa [forEach] using hw
  | cons x rest ih =>
    rw [forEach, wp_bind]
    exact wp_mono (hf x w hw) (fun _ _ => ih) fun _ => id

end PeclMemcache
