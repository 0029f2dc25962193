import Dotchat.ThreadSteps

/-!
The construction of a `thread_conn`. Its members are initialised in the order in
which they are declared: `runner`, which starts `callback`, comes before `state`.
A `callback` that is faster than the constructor has its state overwritten: the
thread serves one more request at most, and nobody ever stops or drops it. What a
thread keeps to in either order is `Kept`.
-/
namespace Dotchat

namespace ThreadConn

/-- The memory of a `thread_conn` whose `runner` has been started. -/
def started (state : ThreadState) : ThreadConn := { state := state }

/-- The initialisation of `state` by the constructor. -/
def initState (c : ThreadConn) : ThreadConn := { c with state := .waiting }

/-- The constructor has overwritten the state that `callback` had set. -/
def Overwritten (c : ThreadConn) : Prop :=
  c.state = .waiting ∧ c.point ∉ closing ∧ c.point ≠ .setRunning

/-- What every thread keeps to, in either order of its constructor and `callback`. -/
def Kept (c : ThreadConn) : Prop := c.Fit ∨ c.Overwritten

/-- How many requests an overwritten thread can still handle. -/
def pending (c : ThreadConn) : ℕ := if c.point = .read ∨ c.point = .handle then 1 else 0

section Construction

variable {c c' : ThreadConn} {e : CallbackEvent} {early late : List CallbackEvent}
  {state : ThreadState}

theorem Overwritten.requestStop (h : c.Overwritten) : c.requestStop = c := by
  have hnot : ¬ c.isRunning := by simp [isRunning, h.1]
  rw [ThreadConn.requestStop, if_neg hnot]

theorem eq_read_of_handle_mem_next {point : CallbackPoint} (h : .handle ∈ point.next) :
    point = .read := by
  cases point <;> revert h <;> decide

/-- The test of the loop fails from now on. -/
theorem overwritten_step (h : c.Overwritten) (hstep : c.step e = some c') :
    c'.Overwritten ∧ e.requests + c'.pending ≤ c.pending := by
  by_cases he : e = .requestStop
  · subst he
    cases hstep
    rw [h.requestStop]
    exact ⟨h, by simp [CallbackEvent.requests]⟩
  obtain ⟨hstate, hclosing, hbegun⟩ := h
  have hadvances := advances he hstep
  have hwaits : c'.state = .waiting := by
    rw [hadvances.state, stateNext]
    cases hat : c.point with
    | setRunning => exact absurd hat hbegun
    | setFinished | setStopped => exact absurd (hat ▸ by decide) hclosing
    | _ => exact hstate
  have hnoRead : c'.point ≠ .read := by
    intro hread
    obtain ⟨-, hrunning⟩ := hadvances.reads hread
    simp [isRunning, hstate] at hrunning
  have hnoStart : c'.point ≠ .setRunning :=
    fun hstart => setRunning_notMem_next _ (hstart ▸ hadvances.point)
  refine ⟨⟨hwaits, hadvances.notMem_closing hclosing (by simp [hstate]), hnoStart⟩, ?_⟩
  by_cases hhandle : c.point = .handle
  · have hnext := hadvances.point
    have hone := requests_le_one e
    rw [hhandle] at hnext
    have hpast : c'.point ≠ .handle := fun h => absurd (h ▸ hnext) (by decide)
    simp [pending, hhandle, hnoRead, hpast, hone]
  · rw [hadvances.requests_eq_zero hhandle, Nat.zero_add]
    by_cases hread : c.point = .read
    · simp only [pending, hread, true_or, if_true]
      split <;> omega
    · have hpast : c'.point ≠ .handle :=
        fun h => hread (eq_read_of_handle_mem_next (h ▸ hadvances.point))
      simp [pending, hnoRead, hpast]

/-- A run after the state was overwritten. -/
theorem overwritten_run (h : c.Overwritten) (hrun : c.run late = some c') :
    c'.Overwritten ∧ (late.map (·.requests)).sum ≤ 1 := by
  have hpending : c.pending ≤ 1 := by
    unfold pending
    split <;> omega
  refine ⟨Machine.run_invariant (fun _ _ _ hc hstep => (overwritten_step hc hstep).1) h hrun,
    Nat.le_trans (Machine.run_spends (W := fun n c => c.Overwritten ∧ c.pending ≤ n) ?_
      ⟨h, Nat.le_refl _⟩ hrun) hpending⟩
  rintro n d e d' ⟨hd, hle⟩ hstep
  obtain ⟨hd', hcost⟩ := overwritten_step hd hstep
  exact ⟨d'.pending, ⟨hd', Nat.le_refl _⟩, by omega⟩

/-- `callback` before the constructor has gone on. -/
theorem serving_run (hearly : (started state).run early = some c)
    (hown : .requestStop ∉ early) (hne : early ≠ []) : c.Unasked ∧ c.point ≠ .setRunning := by
  cases early with
  | nil => exact absurd rfl hne
  | cons e early =>
    obtain ⟨d, hstep, hrun⟩ := Machine.run_cons_eq_some.mp hearly
    obtain ⟨hfirst, hown⟩ := not_or.mp (List.mem_cons.not.mp hown)
    have hd : d = { state := .running, point := .testLoop } := by
      cases e with
      | requestStop => exact absurd rfl hfirst
      | proceed => exact (Option.some.inj hstep).symm
      | shutdown _ | sslRead _ | handled _ | sent _ => simp [step, started] at hstep
    refine Machine.run_keeps (I := fun c => c.Unasked ∧ c.point ≠ .setRunning)
      (P := (· ≠ .requestStop)) ?_ ?_ (fun _ he hstop => hown (by rwa [hstop] at he)) hrun
    · rintro b e b' ⟨hb, -⟩ he hstep
      exact ⟨unasked_step hb he hstep,
        fun hstart => setRunning_notMem_next _ (hstart ▸ (advances he hstep).point)⟩
    · rw [hd]
      exact ⟨⟨.inr rfl, by decide⟩, by decide⟩

/-- A thread whose `callback` has begun is in the initial state exactly when the
constructor came second. Then it handles at most one more request, `request_stop`
does not reach it and its state is never final. -/
theorem waiting_iff (hearly : (started state).run early = some c)
    (hown : .requestStop ∉ early) (hlate : c.initState.run late = some c')
    (hbegun : c'.point ≠ .setRunning) :
    (c'.state = .waiting ↔ early ≠ []) ∧
      (early ≠ [] → (late.map (·.requests)).sum ≤ 1 ∧ c'.requestStop = c' ∧ ¬ c'.isStopped) := by
  by_cases hfirst : early = []
  · subst hfirst
    cases hearly
    have hfit : c'.Fit := Machine.run_invariant (fun _ _ _ => fit_step) fit_start hlate
    refine ⟨iff_of_false ?_ (by simp), fun hne => absurd rfl hne⟩
    intro hstate
    have hbegun : c'.Begun := ⟨hfit, hbegun⟩
    rcases hbegun.running_or_stopped with h | h <;> simp [isRunning, isStopped, hstate] at h
  · obtain ⟨hserving, hpast⟩ := serving_run hearly hown hfirst
    have hoverwritten : c.initState.Overwritten := ⟨rfl, hserving.2, hpast⟩
    obtain ⟨hend, hsum⟩ := overwritten_run hoverwritten hlate
    refine ⟨iff_of_true hend.1 hfirst, fun _ => ⟨hsum, hend.requestStop, ?_⟩⟩
    rintro (hstate | hstate) <;> simp [hend.1] at hstate

/-- A client sends a request; the constructor sets the state while the thread
waits for it. -/
def answering : List CallbackEvent :=
  [.sslRead 7, .handled none, .sent none, .proceed, .shutdown 0]

def unstoppable : ThreadConn where
  state := .waiting
  ssl := true
  point := .returned

theorem waiting_iff_unstoppable :
    (unstoppable.state = .waiting ↔ [CallbackEvent.proceed, .shutdown 0] ≠ []) ∧
      ([CallbackEvent.proceed, .shutdown 0] ≠ [] → (answering.map (·.requests)).sum ≤ 1 ∧
        unstoppable.requestStop = unstoppable ∧ ¬ unstoppable.isStopped) :=
  waiting_iff (by decide : (started .finished).run [.proceed, .shutdown 0] =
      some { state := .running, ssl := true, point := .read })
    (by decide) (by decide : _ = some unstoppable) (by decide)

end Construction

section Keeping

variable {c c' : ThreadConn} {e : CallbackEvent}

theorem kept_start : Kept {} := .inl fit_start

theorem kept_step (h : c.Kept) (hstep : c.step e = some c') : c'.Kept :=
  h.imp (fun hfit => fit_step hfit hstep) fun hover => (overwritten_step hover hstep).1

theorem unasked_initState (h : c.Unasked) : c.initState.Unasked := ⟨.inl rfl, h.2⟩

/-- The constructor comes first, or it overwrites the state. -/
theorem kept_initState (h : c.Kept) (hunasked : c.Unasked) : c.initState.Kept := by
  by_cases hstart : c.point = .setRunning
  · left
    rcases h with (hsound | hlost) | hover
    · rw [Sound, hstart] at hsound
      left
      rw [Sound, initState, hstart]
      exact ⟨hsound.1, rfl⟩
    · rcases hlost.1 with hpoint | hpoint <;> simp [hstart] at hpoint
    · exact absurd hstart hover.2.2
  · exact .inr ⟨rfl, hunasked.2, hstart⟩

theorem Kept.fit (h : c.Kept) (hstate : c.state ≠ .waiting) : c.Fit :=
  h.resolve_right fun hover => hstate hover.1

/-- A thread that is not in its initial state has begun. -/
theorem Kept.begun (h : c.Kept) (hstate : c.state ≠ .waiting) : c.Begun := by
  refine ⟨h.fit hstate, fun hstart => ?_⟩
  rcases h.fit hstate with hsound | hlost
  · rw [Sound, hstart] at hsound
    exact hstate hsound.2
  · rcases hlost.1 with hpoint | hpoint <;> simp [hstart] at hpoint

theorem Kept.begun_of_asked (h : c.Kept) (hasked : c.Asked) : c.Begun := by
  refine h.begun fun hwaiting => ?_
  rcases hasked with hstate | hstate | hstate <;> simp [hwaiting] at hstate

theorem Kept.of_stopped (h : c.Kept) (hstopped : c.isStopped) :
    c.ssl = false ∧ (c.point = .testLoop ∨ c.point = .returned) :=
  (h.begun_of_asked (.inr hstopped)).1.of_stopped hstopped

end Keeping
end ThreadConn
end Dotchat
