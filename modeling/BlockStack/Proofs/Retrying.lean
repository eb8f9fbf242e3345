import BlockStack.Backend
import Mathlib.Order.Bounds.Defs

/-!
# BlockStack.Proofs.Retrying

Calls of a backend that are repeated.

* `IsDecisive`: what ends the attempts, a success or a fault that does not pass.
* `tryAgain_eq`: of the attempts allowed, the first decisive one is the last that is made.
* `Backend.troubles`: how many attempts will come to nothing, as they are cut off or fail.
* `Backend.Worn`: what attempts that came to nothing leave of a backend. `Worn.next` is the step to
  the next such attempt, `Backend.exists_worn` the run, and `Backend.ask_eq` what a call comes to.
* `Backend.Change`: the operations that change objects. They are made once or not at all.
* `retries_decided`: all of this for any policy.
-/

namespace BlockStack

/-! ## Attempts -/

/-- No attempt follows one that succeeded or failed for good. -/
def IsDecisive {α : Type} : Except Fault α → Prop
  | .ok _ => True
  | .error fault => fault.isTransient = false

/-- An attempt made after a number of others, whatever came of those. -/
def attemptAfter {σ α : Type} (attempt : σ → Except Fault α × σ) : Nat → σ → Except Fault α × σ
  | 0, s => attempt s
  | earlier + 1, s => attempt (attemptAfter attempt earlier s).2

section Attempts

variable {σ α : Type} {attempt : σ → Except Fault α × σ} {more : Nat} {s : σ}

theorem attemptAfter_next (earlier : Nat) (s : σ) :
    attemptAfter attempt earlier (attempt s).2 = attemptAfter attempt (earlier + 1) s := by
  induction earlier with
  | zero => rfl
  | succ earlier ih => exact congrArg (fun last => attempt last.2) ih

theorem tryAgain_of_decisive (h : IsDecisive (attempt s).1) :
    tryAgain attempt more s = attempt s := by
  cases more with
  | zero => rfl
  | succ more =>
    cases hs : attempt s with
    | mk result next =>
      rw [hs] at h
      cases result with
      | ok a => simp only [tryAgain, hs]
      | error fault =>
        have hgood : fault.isTransient = false := h
        simp [tryAgain, hs, hgood]

theorem tryAgain_of_not_decisive (h : ¬ IsDecisive (attempt s).1) :
    tryAgain attempt (more + 1) s = tryAgain attempt more (attempt s).2 := by
  cases hs : attempt s with
  | mk result next =>
    rw [hs] at h
    cases result with
    | ok a => exact absurd trivial h
    | error fault =>
      have hpasses : fault.isTransient = true := by simpa [IsDecisive] using h
      simp [tryAgain, hs, hpasses]

/-- Attempts are made up to the first that is decisive, or up to the last that is allowed. -/
theorem tryAgain_eq (attempt : σ → Except Fault α × σ) (more : Nat) : ∀ s : σ,
    ∃ earlier, IsLeast {n | n = more ∨ IsDecisive (attemptAfter attempt n s).1} earlier ∧
      tryAgain attempt more s = attemptAfter attempt earlier s := by
  induction more with
  | zero => exact fun s => ⟨0, ⟨.inl rfl, fun n _ => Nat.zero_le n⟩, rfl⟩
  | succ more ih =>
    intro s
    by_cases h : IsDecisive (attempt s).1
    · exact ⟨0, ⟨.inr h, fun n _ => Nat.zero_le n⟩, tryAgain_of_decisive h⟩
    · obtain ⟨earlier, ⟨hmem, hleast⟩, heq⟩ := ih (attempt s).2
      rw [tryAgain_of_not_decisive h, heq, attemptAfter_next]
      refine ⟨earlier + 1, ⟨?_, fun n hn => ?_⟩, rfl⟩
      · exact hmem.imp (congrArg (· + 1)) fun hend => by rwa [attemptAfter_next] at hend
      · cases n with
        | zero => exact absurd (hn.resolve_left (Nat.succ_ne_zero more).symm) h
        | succ n =>
          refine Nat.succ_le_succ (hleast ?_)
          exact hn.imp Nat.succ.inj fun hend => by rwa [attemptAfter_next]

/-- The same with the attempts counted from one. -/
theorem exists_lastAttempt (attempt : σ → Except Fault α × σ) (policy : RetryPolicy) (s : σ) :
    ∃ k, IsLeast {k | 0 < k ∧ (k = max 1 policy.maxAttempts.toNat ∨
        IsDecisive (attemptAfter attempt (k - 1) s).1)} k ∧
      tryAgain attempt (policy.attempts - 1) s = attemptAfter attempt (k - 1) s := by
  obtain ⟨earlier, ⟨hmem, hleast⟩, heq⟩ := tryAgain_eq attempt (policy.attempts - 1) s
  have hpos := policy.attempts_pos
  refine ⟨earlier + 1, ⟨⟨Nat.succ_pos _, ?_⟩, ?_⟩, heq⟩
  · exact hmem.imp_left fun hend => by rw [hend, Nat.sub_add_cancel hpos]; rfl
  · rintro k ⟨hk, hend⟩
    have hstep : earlier ≤ k - 1 := hleast (hend.imp_left fun hlast => by rw [hlast]; rfl)
    omega

theorem exists_attempt (attempt : σ → Except Fault α × σ) (more : Nat) (s : σ) :
    ∃ last, tryAgain attempt more s = attempt last := by
  obtain ⟨earlier, -, heq⟩ := tryAgain_eq attempt more s
  cases earlier with
  | zero => exact ⟨s, heq⟩
  | succ earlier => exact ⟨_, heq⟩

end Attempts

/-- What an attempt gives within the time that it may take. -/
inductive Reply (α : Type) where
  | given (answer : Except Fault α)
  | late

/-- What a reply counts as. One that is late counts as a backend that timed out. -/
def Reply.answer {α : Type} (policy : RetryPolicy) (backend operation : String) :
    Reply α → Except Fault α
  | .given answer => answer
  | .late => .error (.backendTimeout backend operation policy.callTimeoutMs)

/-- Attempts that only count themselves, and have their answers from a list without an end. -/
theorem attemptAfter_counted {α : Type} (answers : Nat → Except Fault α) (earlier : Nat) :
    attemptAfter (fun made => (answers (made + 1), made + 1)) earlier 0 =
      (answers (earlier + 1), earlier + 1) := by
  induction earlier with
  | zero => rfl
  | succ earlier ih => rw [attemptAfter, ih]

namespace Backend

variable {α : Type} {policy : RetryPolicy} {backend left : Backend} {call : Call α} {n : Nat}

/-! ## Attempts that come to nothing -/

/-- How many of the next attempts are cut off, as they wait for longer than a call may take. -/
def cutOffs (policy : RetryPolicy) (backend : Backend) : Nat :=
  if policy.callTimeoutMs < backend.stallMs then backend.stalls.toNat else 0

/-- How many of the next attempts are cut off or fail. -/
def troubles (policy : RetryPolicy) (backend : Backend) : Nat :=
  backend.cutOffs policy + backend.failuresPending.toNat

/-- What some attempts that came to nothing leave of a backend: those that were cut off never
reached it, and the others used up its failures. -/
structure Worn (policy : RetryPolicy) (backend : Backend) (n : Nat) (left : Backend) : Prop where
  name : left.name = backend.name
  objects : left.objects = backend.objects
  pools : left.pools = backend.pools
  cutOffs : left.cutOffs policy = backend.cutOffs policy - n
  failures : left.failuresPending.toNat =
    backend.failuresPending.toNat - (n - backend.cutOffs policy)
  calls : left.calls = backend.calls + UInt32.ofNat (n - backend.cutOffs policy)

theorem Worn.refl (policy : RetryPolicy) (backend : Backend) : backend.Worn policy 0 backend :=
  ⟨rfl, rfl, rfl, rfl, by simp, by simp⟩

theorem attempt_cutOff (h : 0 < backend.cutOffs policy) :
    attempt (some policy.callTimeoutMs) call backend =
      (.error (.backendTimeout backend.name call.operation policy.callTimeoutMs),
        { backend with stalls := backend.stalls - 1 }) := by
  unfold cutOffs at h
  split at h
  · rename_i hlate
    have hstalls : 0 < backend.stalls := UInt32.lt_iff_toNat_lt.2 h
    simp [attempt, takeStall, hstalls, isCutOff, hlate]
  · cases h

/-- An attempt that is not cut off may wait, but then reaches the backend. -/
theorem attempt_arrive (call : Call α) (h : backend.cutOffs policy = 0) :
    ∃ stalls, cutOffs policy { backend with stalls } = 0 ∧
      attempt (some policy.callTimeoutMs) call backend =
        arrive { backend with stalls } call := by
  by_cases hstalls : 0 < backend.stalls
  · have hwait : ¬ policy.callTimeoutMs < backend.stallMs := fun hlate => by
      rw [cutOffs, if_pos hlate] at h
      exact absurd (UInt32.lt_iff_toNat_lt.1 hstalls) (by simp [h])
    refine ⟨backend.stalls - 1, if_neg hwait, ?_⟩
    simp [attempt, takeStall, hstalls, isCutOff, hwait]
  · refine ⟨backend.stalls, h, ?_⟩
    simp [attempt, takeStall, hstalls, isCutOff]

theorem cutOffs_pred (h : 0 < backend.cutOffs policy) :
    cutOffs policy { backend with stalls := backend.stalls - 1 } = backend.cutOffs policy - 1 := by
  unfold cutOffs at h ⊢
  split at h
  · rename_i hlate
    have hone : (1 : UInt32) ≤ backend.stalls := UInt32.le_iff_toNat_le.2 h
    rw [if_pos hlate, if_pos hlate]
    exact UInt32.toNat_sub_of_le _ _ hone
  · cases h

theorem Worn.untroubled (h : backend.Worn policy (backend.troubles policy) left) :
    left.troubles policy = 0 := by
  have hcutOffs := h.cutOffs
  have hfailures := h.failures
  unfold troubles at *
  omega

/-- One more attempt that comes to nothing: it is cut off, or else it fails. -/
theorem Worn.next (h : backend.Worn policy n left) (hn : n < backend.troubles policy)
    (call : Call α) :
    ∃ fault next, attempt (some policy.callTimeoutMs) call left = (.error fault, next) ∧
      fault.isTransient = true ∧ backend.Worn policy (n + 1) next := by
  have hcutOffs := h.cutOffs
  have hfailures := h.failures
  unfold troubles at hn
  by_cases hcut : 0 < left.cutOffs policy
  · -- the backend is as before, but for the wait
    have hreached : n - backend.cutOffs policy = n + 1 - backend.cutOffs policy := by omega
    refine ⟨_, _, attempt_cutOff hcut, rfl, h.name, h.objects, h.pools, ?_, ?_, ?_⟩
    · rw [cutOffs_pred hcut]
      omega
    · exact hfailures.trans (by rw [hreached])
    · exact h.calls.trans (by rw [hreached])
  · have hnone : left.cutOffs policy = 0 := by omega
    have hpending : 0 < left.failuresPending := UInt32.lt_iff_toNat_lt.2 (by simp; omega)
    have hone : (1 : UInt32) ≤ left.failuresPending := UInt32.le_iff_toNat_le.2 (by simp; omega)
    obtain ⟨stalls, hpast, harrive⟩ := attempt_arrive call hnone
    have hattempt : attempt (some policy.callTimeoutMs) call left =
        (.error (.backendUnavailable left.name), { left with
          stalls, calls := left.calls + 1, failuresPending := left.failuresPending - 1 }) := by
      rw [harrive]
      simp [arrive, hpending]
    refine ⟨_, _, hattempt, rfl, h.name, h.objects, h.pools, ?_, ?_, ?_⟩
    · exact hpast.trans (by omega)
    · exact (UInt32.toNat_sub_of_le _ _ hone).trans (by simp; omega)
    · have hmore : n + 1 - backend.cutOffs policy = n - backend.cutOffs policy + 1 := by omega
      rw [hmore, UInt32.ofNat_add, ← UInt32.add_assoc, ← h.calls]
      rfl

theorem exists_worn (call : Call α) (hn : n ≤ backend.troubles policy) :
    ∃ left, backend.Worn policy n left ∧
      attemptAfter (attempt (some policy.callTimeoutMs) call) n backend =
        attempt (some policy.callTimeoutMs) call left := by
  induction n with
  | zero => exact ⟨backend, .refl policy backend, rfl⟩
  | succ n ih =>
    obtain ⟨left, hleft, hattempts⟩ := ih (by omega)
    obtain ⟨fault, next, hattempt, -, hnext⟩ := hleft.next hn call
    exact ⟨next, hnext, by rw [attemptAfter, hattempts, hattempt]⟩

/-- What comes of a call that has entered a backend, and fails only as its operation does. -/
def performed (call : Call α) (entered : Backend) : Except Fault α × Backend :=
  match call.perform entered with
  | .ok (a, next) => (.ok a, next)
  | .error fault => (.error fault, entered)

theorem performed_ok {entered next : Backend} {a : α} (h : call.perform entered = .ok (a, next)) :
    performed call entered = (.ok a, next) := by
  rw [performed, h]

theorem performed_error {entered : Backend} {fault : Fault}
    (h : call.perform entered = .error fault) :
    performed call entered = (.error fault, entered) := by
  rw [performed, h]

theorem arrive_clear (h : backend.failuresPending = 0) :
    backend.arrive call = performed call { backend with calls := backend.calls + 1 } := by
  have hnone : ¬ 0 < backend.failuresPending := by
    rw [h]
    decide
  rw [arrive, if_neg hnone]
  rfl

/-- In an attempt that nothing stands in the way of the operation is performed, and nothing stands in
the way of the next one. -/
theorem attempt_clear (call : Call α) (h : backend.troubles policy = 0) :
    ∃ stalls, troubles policy { backend with stalls } = 0 ∧
      attempt (some policy.callTimeoutMs) call backend =
        performed call { backend with stalls, calls := backend.calls + 1 } := by
  obtain ⟨hcut, hpending⟩ := Nat.add_eq_zero_iff.1 h
  obtain ⟨stalls, hpast, harrive⟩ := attempt_arrive call hcut
  exact ⟨stalls, Nat.add_eq_zero_iff.2 ⟨hpast, hpending⟩,
    harrive.trans (arrive_clear (UInt32.toNat_inj.1 hpending))⟩

/-! ## Repeated calls -/

/-- An operation that does not fail in a way that passes. -/
def Call.IsFirm (call : Call α) : Prop :=
  ∀ backend fault, call.perform backend = .error fault → fault.isTransient = false

theorem Call.IsFirm.decisive (hfirm : call.IsFirm) (h : backend.troubles policy = 0) :
    IsDecisive (attempt (some policy.callTimeoutMs) call backend).1 := by
  obtain ⟨stalls, -, hattempt⟩ := attempt_clear call h
  rw [hattempt]
  cases hperform : call.perform { backend with stalls, calls := backend.calls + 1 } with
  | ok answer =>
    rw [performed_ok hperform]
    trivial
  | error fault =>
    rw [performed_error hperform]
    exact hfirm _ _ hperform

/-- A call is repeated until nothing stands in its way any more, or until the last attempt that is
allowed. -/
theorem ask_eq (hfirm : call.IsFirm) :
    ∃ left, backend.Worn policy (min (policy.attempts - 1) (backend.troubles policy)) left ∧
      backend.ask (some policy) call = attempt (some policy.callTimeoutMs) call left := by
  obtain ⟨made, ⟨hmem, hleast⟩, hask⟩ :=
    tryAgain_eq (attempt (some policy.callTimeoutMs) call) (policy.attempts - 1) backend
  -- no attempt is made after the last, nor after the first that nothing stands in the way of
  have hlast : made ≤ policy.attempts - 1 := hleast (.inl rfl)
  have htroubles : made ≤ backend.troubles policy := by
    refine hleast (.inr ?_)
    obtain ⟨left, hleft, hattempts⟩ := exists_worn call (Nat.le_refl (backend.troubles policy))
    rw [hattempts]
    exact hfirm.decisive hleft.untroubled
  obtain ⟨left, hleft, hattempts⟩ := exists_worn call htroubles
  -- nor do they end before, as those before come to nothing
  have hmade : min (policy.attempts - 1) (backend.troubles policy) ≤ made := by
    refine Nat.not_lt.1 fun hlt => ?_
    obtain ⟨fault, next, hattempt, htransient, -⟩ := hleft.next (by omega) call
    rcases hmem with rfl | hdecisive
    · omega
    · rw [hattempts, hattempt] at hdecisive
      exact Bool.false_ne_true (hdecisive.symm.trans htransient)
  obtain rfl := Nat.le_antisymm (Nat.le_min.2 ⟨hlast, htroubles⟩) hmade
  exact ⟨left, hleft, hask.trans hattempts⟩

/-- If fewer attempts come to nothing than are allowed, the operation is performed once, and nothing
stands in the way of the next call. -/
theorem ask_clear (hfirm : call.IsFirm) (h : backend.troubles policy < policy.attempts) :
    ∃ entered, backend.ask (some policy) call = performed call entered ∧
      entered.name = backend.name ∧ entered.objects = backend.objects ∧
      entered.pools = backend.pools ∧ entered.troubles policy = 0 ∧
      entered.calls =
        backend.calls + UInt32.ofNat (backend.troubles policy + 1 - backend.cutOffs policy) := by
  obtain ⟨left, hleft, hask⟩ := @ask_eq _ policy backend _ hfirm
  rw [Nat.min_eq_right (by omega)] at hleft
  obtain ⟨stalls, hpast, hattempt⟩ := attempt_clear call hleft.untroubled
  refine ⟨_, hask.trans hattempt, hleft.name, hleft.objects, hleft.pools, hpast, ?_⟩
  have hone : backend.troubles policy + 1 - backend.cutOffs policy =
      backend.troubles policy - backend.cutOffs policy + 1 := by
    unfold troubles
    omega
  rw [hone, UInt32.ofNat_add, ← UInt32.add_assoc, ← hleft.calls]
  rfl

/-- Otherwise all attempts come to nothing. -/
theorem ask_spent (hfirm : call.IsFirm) (h : policy.attempts ≤ backend.troubles policy) :
    ∃ fault next, backend.ask (some policy) call = (.error fault, next) ∧
      fault.isTransient = true ∧ backend.Worn policy policy.attempts next := by
  obtain ⟨left, hleft, hask⟩ := @ask_eq _ policy backend _ hfirm
  have hpos := policy.attempts_pos
  rw [Nat.min_eq_left (by omega)] at hleft
  obtain ⟨fault, next, hattempt, htransient, hnext⟩ := hleft.next (by omega) call
  rw [Nat.sub_add_cancel hpos] at hnext
  exact ⟨fault, next, hask.trans hattempt, htransient, hnext⟩

/-! ## Changes of objects -/

inductive Change where
  | create (spec : VolumeSpec)
  | resize (spec : VolumeSpec)
  | delete (identifier : String)
  | activate (identifier : String)
  | deactivate (identifier : String)

def Change.toCall : Change → Call Unit
  | create spec => Backend.create spec
  | resize spec => Backend.resize spec
  | delete identifier => Backend.delete identifier
  | activate identifier => Backend.activate identifier
  | deactivate identifier => Backend.deactivate identifier

/-- An operation changes the objects of two backends alike, or fails for good on both. -/
def Call.Alike (call : Call Unit) (a b : Backend) : Prop :=
  (∃ objects, call.perform a = .ok ((), { a with objects }) ∧
    call.perform b = .ok ((), { b with objects })) ∨
  ∃ fault, fault.isTransient = false ∧ call.perform a = .error fault ∧ call.perform b = .error fault

section Alike

variable {a b : Backend}

theorem change_alike (operation identifier : String) {f : Backend → ObjectFacts → ObjectFacts}
    (hname : b.name = a.name) (hobjects : b.objects = a.objects) (hf : f b = f a) :
    (change operation identifier f).Alike a b := by
  simp only [Call.Alike, change, missing, hname, hobjects, hf]
  cases a.objects.get? identifier with
  | none => exact .inr ⟨_, rfl, rfl, rfl⟩
  | some facts => exact .inl ⟨_, rfl, rfl⟩

/-- A change depends on nothing but the name and the objects of a backend. -/
theorem Change.alike (kind : Change) (hname : b.name = a.name) (hobjects : b.objects = a.objects) :
    kind.toCall.Alike a b := by
  cases kind with
  | create spec =>
    refine .inl ⟨_, rfl, ?_⟩
    simp only [toCall, Backend.create, hobjects]
  | resize spec => exact change_alike _ _ hname hobjects rfl
  | delete identifier =>
    simp only [toCall, Call.Alike, Backend.delete, missing, hname, hobjects]
    cases a.objects.get? identifier with
    | none => exact .inr ⟨_, rfl, rfl, rfl⟩
    | some facts => exact .inl ⟨_, rfl, rfl⟩
  | activate identifier => exact change_alike _ _ hname hobjects (by rw [hname])
  | deactivate identifier => exact change_alike _ _ hname hobjects rfl

end Alike

theorem Change.firm (kind : Change) : kind.toCall.IsFirm := by
  intro backend fault hfault
  rcases @kind.alike backend backend rfl rfl with ⟨_, hok, -⟩ | ⟨cause, hgood, herror, -⟩
  · rw [hok] at hfault
    cases hfault
  · rw [herror] at hfault
    cases hfault
    exact hgood

/-- A backend without failures and stalls to come. -/
def calm (backend : Backend) : Backend := { backend with failuresPending := 0, stalls := 0 }

theorem ask_calm (backend : Backend) (call : Call α) :
    backend.calm.ask none call = performed call { backend.calm with calls := backend.calls + 1 } :=
  @arrive_clear _ backend.calm call rfl

/-- What comes of a change that a backend is asked for as often as a policy says: it is made once or
not at all. -/
structure Once (policy : RetryPolicy) (backend : Backend) (kind : Change) : Prop where
  /-- After a success the objects are as one application leaves them that nothing stands in the way
  of. -/
  made : (backend.ask (some policy) kind.toCall).1 = .ok () →
    (backend.calm.ask none kind.toCall).1 = .ok () ∧
      (backend.ask (some policy) kind.toCall).2.objects =
        (backend.calm.ask none kind.toCall).2.objects
  /-- After a fault they are as before. -/
  unmade : ∀ fault, (backend.ask (some policy) kind.toCall).1 = .error fault →
    (backend.ask (some policy) kind.toCall).2.objects = backend.objects
  /-- If fewer attempts come to nothing than are allowed, the answer is that of one application, -/
  answered : backend.troubles policy < policy.attempts →
    (backend.ask (some policy) kind.toCall).1 = (backend.calm.ask none kind.toCall).1
  /-- and otherwise a fault that passes. -/
  spent : policy.attempts ≤ backend.troubles policy → ∃ fault,
    (backend.ask (some policy) kind.toCall).1 = .error fault ∧ fault.isTransient = true
  /-- All attempts reach the backend but those that are cut off. -/
  calls : (backend.ask (some policy) kind.toCall).2.calls = backend.calls +
    UInt32.ofNat (min policy.attempts (backend.troubles policy + 1) - backend.cutOffs policy)

theorem once (policy : RetryPolicy) (backend : Backend) (kind : Change) :
    Once policy backend kind := by
  have hsingle := ask_calm backend kind.toCall
  rcases Nat.lt_or_ge (backend.troubles policy) policy.attempts with hclear | hspent
  · have hmin : min policy.attempts (backend.troubles policy + 1) = backend.troubles policy + 1 :=
      Nat.min_eq_right hclear
    obtain ⟨entered, hask, hname, hobjects, -, -, hcalls⟩ := ask_clear kind.firm hclear
    rcases kind.alike (a := { backend.calm with calls := backend.calls + 1 }) hname hobjects with
      ⟨objects, hone, hthis⟩ | ⟨fault, -, hone, hthis⟩
    · rw [performed_ok hone] at hsingle
      rw [performed_ok hthis] at hask
      exact {
        made := fun _ => by
          rw [hask, hsingle]
          exact ⟨rfl, rfl⟩
        unmade := fun fault h => by
          rw [hask] at h
          cases h
        answered := fun _ => by rw [hask, hsingle]
        spent := fun h => absurd hclear (Nat.not_lt.2 h)
        calls := by
          rw [hask, hmin]
          exact hcalls }
    · rw [performed_error hone] at hsingle
      rw [performed_error hthis] at hask
      exact {
        made := fun h => by
          rw [hask] at h
          cases h
        unmade := fun _ _ => by
          rw [hask]
          exact hobjects
        answered := fun _ => by rw [hask, hsingle]
        spent := fun h => absurd hclear (Nat.not_lt.2 h)
        calls := by
          rw [hask, hmin]
          exact hcalls }
  · obtain ⟨fault, next, hask, htransient, hnext⟩ := ask_spent kind.firm hspent
    exact {
      made := fun h => by
        rw [hask] at h
        cases h
      unmade := fun _ _ => by
        rw [hask]
        exact hnext.objects
      answered := fun h => absurd h (Nat.not_lt.2 hspent)
      spent := fun _ => ⟨fault, by rw [hask], htransient⟩
      calls := by
        rw [hask, Nat.min_eq_left (by omega)]
        exact hnext.calls }

/-- Two attempts wait for too long, the third fails, and the fourth makes the object. -/
example :
    let backend : Backend := { name := "lvm", failuresPending := 1, stalls := 2, stallMs := 20 }
    backend.ask (some { maxAttempts := 4, callTimeoutMs := 10 })
        (create ⟨"a_00000", ⟨"alpha", "fast"⟩, 8⟩) =
      (.ok (), { backend with
        objects := .ofList [("a_00000", { present := true, sizeKib := 8 })]
        failuresPending := 0, calls := 2, stalls := 0 }) := by
  rfl

/-! ## Facts of objects -/

/-- What is known of some objects. -/
def known (objects : FactsMap) (identifiers : List String) : FactsMap :=
  .ofList (identifiers.filterMap (fun id => (objects.get? id).map (id, ·)))

theorem get?_known (objects : FactsMap) (identifiers : List String) (id : String) :
    (known objects identifiers).get? id = if id ∈ identifiers then objects.get? id else none := by
  rw [known, SortedMap.get?_ofList]
  -- the entries of an object all hold the same facts
  have hentry : ∀ entry, entry ∈ (identifiers.filterMap
      (fun name => (objects.get? name).map (name, ·))).filter (fun entry => decide (entry.1 = id)) ↔
        entry.1 = id ∧ id ∈ identifiers ∧ objects.get? id = some entry.2 := by
    rintro ⟨name, facts⟩
    simp only [List.mem_filter, List.mem_filterMap, Option.map_eq_some_iff, Prod.mk.injEq,
      decide_eq_true_eq]
    constructor
    · rintro ⟨⟨_, hmem, _, hfacts, rfl, rfl⟩, rfl⟩
      exact ⟨rfl, hmem, hfacts⟩
    · rintro ⟨rfl, hmem, hfacts⟩
      exact ⟨⟨name, hmem, facts, hfacts, rfl, rfl⟩, rfl⟩
  generalize (identifiers.filterMap _).filter _ = entries at hentry
  cases hlast : entries.getLast? with
  | some entry =>
    obtain ⟨-, hmem, hfacts⟩ := (hentry entry).1 (List.mem_of_getLast? hlast)
    rw [if_pos hmem, hfacts, Option.map_some]
  | none =>
    rw [List.getLast?_eq_none_iff.1 hlast] at hentry
    split
    · rename_i hmem
      refine (Option.eq_none_iff_forall_ne_some.2 fun facts hfacts => ?_).symm
      exact absurd ((hentry (id, facts)).2 ⟨rfl, hmem, hfacts⟩) List.not_mem_nil
    · rfl

theorem firm_getFacts (identifiers : List String) : (getFacts identifiers).IsFirm := by
  intro backend fault h
  cases h

/-- A backend that tells its facts of some objects tells all that it has of these, and no others. -/
theorem get?_of_ask {identifiers : List String} {facts : FactsMap}
    (h : (backend.ask (some policy) (getFacts identifiers)).1 = .ok facts) (id : String) :
    facts.get? id = if id ∈ identifiers then backend.objects.get? id else none := by
  rcases Nat.lt_or_ge (backend.troubles policy) policy.attempts with hclear | hspent
  · obtain ⟨entered, hask, -, hobjects, -⟩ := ask_clear (firm_getFacts identifiers) hclear
    rw [hask] at h
    cases h
    rw [← hobjects]
    exact get?_known ..
  · obtain ⟨fault, next, hask, -⟩ := ask_spent (firm_getFacts identifiers) hspent
    rw [hask] at h
    cases h

/-- What a backend gives in an attempt. -/
def reply (policy : RetryPolicy) (backend : Backend) (call : Call α) : Reply α :=
  if isCutOff (some policy.callTimeoutMs) backend.takeStall.1 then .late
  else .given (backend.takeStall.2.arrive call).1

theorem attempt_eq_answer (policy : RetryPolicy) (backend : Backend) (call : Call α) :
    (attempt (some policy.callTimeoutMs) call backend).1 =
      (backend.reply policy call).answer policy backend.name call.operation := by
  simp only [attempt, reply]
  split <;> rfl

end Backend

/-! ## What a policy comes to -/

/-- What becomes of calls that are repeated as a policy says. -/
structure RetryPolicy.Decides (policy : RetryPolicy) : Prop where
  /-- Whatever the replies of a backend are, as many attempts are made as it takes to get a decisive
  one, or as are allowed, and the last of them counts. -/
  bounded : ∀ (α : Type) (backend operation : String) (replies : Nat → Reply α), ∃ k,
    IsLeast {k | 0 < k ∧ (k = max 1 policy.maxAttempts.toNat ∨
      IsDecisive ((replies k).answer policy backend operation))} k ∧
    tryAgain (fun made => ((replies (made + 1)).answer policy backend operation, made + 1))
      (policy.attempts - 1) 0 = ((replies k).answer policy backend operation, k)
  /-- An attempt counts as the reply of the backend. -/
  replied : ∀ (α : Type) (backend : Backend) (call : Backend.Call α),
    (backend.attempt (some policy.callTimeoutMs) call).1 =
      (backend.reply policy call).answer policy backend.name call.operation
  /-- A backend is asked as often, and what comes of the last attempt is what comes of the call. -/
  asked : ∀ (α : Type) (backend : Backend) (call : Backend.Call α), ∃ k,
    IsLeast {k | 0 < k ∧ (k = max 1 policy.maxAttempts.toNat ∨ IsDecisive
      (attemptAfter (Backend.attempt (some policy.callTimeoutMs) call) (k - 1) backend).1)} k ∧
    backend.ask (some policy) call =
      attemptAfter (Backend.attempt (some policy.callTimeoutMs) call) (k - 1) backend
  /-- Objects are changed once or not at all. -/
  changed : ∀ (backend : Backend) (kind : Backend.Change), backend.Once policy kind
  /-- What is told of objects is all that the backend has of those that it was asked for. -/
  told : ∀ (backend : Backend) (identifiers : List String) (facts : FactsMap),
    (backend.ask (some policy) (Backend.getFacts identifiers)).1 = .ok facts →
      ∀ id, facts.get? id = if id ∈ identifiers then backend.objects.get? id else none

/-- Attempts are bounded and end with the first that is decisive. A change is not made twice, and
what is told of objects is complete. -/
theorem retries_decided (policy : RetryPolicy) : policy.Decides where
  bounded α backend operation replies := by
    obtain ⟨k, ⟨⟨hpos, hend⟩, hleast⟩, heq⟩ := exists_lastAttempt
      (fun made => ((replies (made + 1)).answer policy backend operation, made + 1)) policy 0
    have hcounted : ∀ j, 0 < j → attemptAfter
        (fun made => ((replies (made + 1)).answer policy backend operation, made + 1)) (j - 1) 0 =
          ((replies j).answer policy backend operation, j) := fun j hj => by
      rw [attemptAfter_counted fun n => (replies n).answer policy backend operation,
        Nat.sub_add_cancel hj]
    refine ⟨k, ⟨⟨hpos, ?_⟩, fun j hj => hleast ⟨hj.1, ?_⟩⟩, heq.trans (hcounted k hpos)⟩
    · exact hend.imp_right fun h => by rwa [hcounted k hpos] at h
    · exact hj.2.imp_right fun h => by rwa [hcounted j hj.1]
  replied _ := Backend.attempt_eq_answer policy
  asked _ backend call := exists_lastAttempt _ policy backend
  changed := Backend.once policy
  told _ _ _ := Backend.get?_of_ask

end BlockStack
