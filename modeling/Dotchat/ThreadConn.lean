import Dotchat.Conversation
import Dotchat.Library.Machine

/-!
The thread of a connection. `callback` is followed from one access of the state
or the connection to the next, with the results of the calls it makes as events;
`request_stop` may be called between any two of them. `cleanup` drops the
threads whose state is a final one.
-/
namespace Dotchat

/-- `thread_state` -/
inductive ThreadState
  | waiting | running | stopping | finished | stopped
  deriving DecidableEq

/-- The two kinds of exceptions that `callback` tells apart. -/
inductive Thrown
  | tlsError | exception
  deriving DecidableEq

/-- Where `callback` stands: what it does next. -/
inductive CallbackPoint
  | setRunning
  | testLoop
  | read
  | closeEmpty
  | setFinished
  | handle
  | send
  | testStopping
  | closeStopping
  | setStopped
  | closeCaught
  | returned
  deriving DecidableEq

/-- `thread_conn`: the state, whether `ssl` is not yet null, and where its
`callback` stands. -/
structure ThreadConn where
  state : ThreadState := .waiting
  ssl : Bool := true
  point : CallbackPoint := .setRunning
  deriving DecidableEq

/-- A call of `request_stop`, a step of `callback` without a result from outside,
or the result of a call that it makes: of `SSL_get_shutdown`, of `SSL_read`, of
`handle` and of `conn.send`. -/
inductive CallbackEvent
  | requestStop
  | proceed
  | shutdown (flags : ℕ)
  | sslRead (got : Int)
  | handled (thrown : Option Thrown)
  | sent (thrown : Option Thrown)
  deriving DecidableEq

namespace ThreadConn

def isRunning (c : ThreadConn) : Prop := c.state = .running ∨ c.state = .stopping

instance (c : ThreadConn) : Decidable c.isRunning := inferInstanceAs (Decidable (_ ∨ _))

def requestStop (c : ThreadConn) : ThreadConn :=
  if c.isRunning then { c with state := .stopping } else c

/-- `tls_connection::close` -/
def close (c : ThreadConn) : ThreadConn := { c with ssl := false }

/-- The catch block of an exception. -/
def catching (c : ThreadConn) : Thrown → ThreadConn
  | .tlsError => { c with point := .returned }
  | .exception => { c with point := .closeCaught }

/-- `tls_connection::read`: the size of the stream it returns. -/
def connReadSize (got : Int) : Except Thrown ℕ :=
  if got ≤ 0 then .error .tlsError else .ok got.toNat

/-- The next state, if the event is possible where `callback` stands. -/
def step (c : ThreadConn) : CallbackEvent → Option ThreadConn
  | .requestStop => some c.requestStop
  | .proceed =>
      match c.point with
      | .setRunning => some { c with state := .running, point := .testLoop }
      | .testLoop => if c.ssl then none else some { c with point := .returned }
      | .closeEmpty => some { c.close with point := .setFinished }
      | .setFinished => some { c with state := .finished, point := .testLoop }
      | .testStopping =>
          some { c with point := if c.state = .stopping then .closeStopping else .testLoop }
      | .closeStopping => some { c.close with point := .setStopped }
      | .setStopped => some { c with state := .stopped, point := .testLoop }
      | .closeCaught => some { c.close with point := .returned }
      | .read | .handle | .send | .returned => none
  | .shutdown flags =>
      if c.point = .testLoop ∧ c.ssl = true then
        some { c with point := if flags = 0 ∧ c.isRunning then .read else .returned }
      else none
  | .sslRead got =>
      if c.point = .read then
        match connReadSize got with
        | .error thrown => some (c.catching thrown)
        | .ok size => some { c with point := if size = 0 then .closeEmpty else .handle }
      else none
  | .handled thrown =>
      if c.point = .handle then
        match thrown with
        | some thrown => some (c.catching thrown)
        | none => some { c with point := .send }
      else none
  | .sent thrown =>
      if c.point = .send then
        match thrown with
        | some thrown => some (c.catching thrown)
        | none => some { c with point := .testStopping }
      else none

/-- The thread after a sequence of events, if each is possible in its place. -/
abbrev run (c : ThreadConn) (events : List CallbackEvent) : Option ThreadConn :=
  Machine.run step c events

/-- `is_stopped` -/
def isStopped (c : ThreadConn) : Prop := c.state = .stopped ∨ c.state = .finished

instance (c : ThreadConn) : Decidable c.isStopped := inferInstanceAs (Decidable (_ ∨ _))

/-- `actual_cleanup` -/
def actualCleanup (threads : List ThreadConn) : List ThreadConn :=
  threads.filter fun c => ¬ c.isStopped

end ThreadConn

/-- A call throws, or the TLS library has shut down the connection when the loop
tests it. -/
def CallbackEvent.Fails : CallbackEvent → Prop
  | .requestStop | .proceed => False
  | .shutdown flags => flags ≠ 0
  | .sslRead got => got ≤ 0
  | .handled thrown | .sent thrown => thrown ≠ none

namespace ThreadConn

section Points

variable {c c' : ThreadConn} {e : CallbackEvent} {events : List CallbackEvent}

/-- Where `callback` can stand as long as no event fails. -/
def Sound (c : ThreadConn) : Prop :=
  match c.point with
  | .setRunning => c.ssl = true ∧ c.state = .waiting
  | .testLoop => c.ssl = true ∧ c.isRunning ∨ c.ssl = false ∧ c.isStopped
  | .setFinished | .setStopped => c.ssl = false ∧ c.isRunning
  | .closeCaught => False
  | .returned => c.ssl = false ∧ c.isStopped
  | .read | .closeEmpty | .handle | .send | .testStopping | .closeStopping =>
      c.ssl = true ∧ c.isRunning

/-- An event has failed: `callback` returns, and the state stays as it is. -/
def Lost (c : ThreadConn) : Prop :=
  (c.point = .closeCaught ∨ c.point = .returned) ∧ c.isRunning

/-- Only the state changes, and only from one running state to another. -/
theorem requestStop_sound (h : c.Sound) : c.requestStop.Sound := by
  unfold requestStop
  split
  · rename_i hrunning
    have hstopping : ({ c with state := .stopping } : ThreadConn).isRunning := .inr rfl
    have hfinal : ¬ c.isStopped := by
      rcases hrunning with hstate | hstate <;> simp [isStopped, hstate]
    rcases c with ⟨state, ssl, point⟩
    cases point with
    | setRunning =>
      obtain ⟨-, rfl⟩ := h
      simp [isRunning] at hrunning
    | testLoop =>
      rcases h with ⟨hssl, -⟩ | ⟨-, hstopped⟩
      · exact .inl ⟨hssl, hstopping⟩
      · exact absurd hstopped hfinal
    | returned => exact absurd h.2 hfinal
    | closeCaught => exact h
    | read | closeEmpty | setFinished | handle | send | testStopping | closeStopping
    | setStopped => exact ⟨h.1, hstopping⟩
  · exact h

theorem proceed_sound (h : c.Sound) (hstep : c.step .proceed = some c') : c'.Sound := by
  rcases c with ⟨state, ssl, point⟩
  cases point with
  | setRunning =>
    cases hstep
    exact .inl ⟨h.1, .inl rfl⟩
  | testLoop =>
    cases ssl with
    | true => cases hstep
    | false =>
      cases hstep
      exact h.resolve_left fun h => absurd h.1 Bool.false_ne_true
  | closeEmpty | closeStopping =>
    cases hstep
    exact ⟨rfl, h.2⟩
  | setFinished =>
    cases hstep
    exact .inr ⟨h.1, .inr rfl⟩
  | setStopped =>
    cases hstep
    exact .inr ⟨h.1, .inl rfl⟩
  | testStopping =>
    cases hstep
    by_cases hstop : state = .stopping
    · simp only [hstop, if_true]
      exact ⟨h.1, .inr rfl⟩
    · simp only [hstop, if_false]
      exact .inl h
  | closeCaught => exact h.elim
  | read | handle | send | returned => cases hstep

/-- The result of a call is awaited with an open connection and a running state,
and decides where `callback` goes on. -/
theorem step_call (h : c.Sound) (hstop : e ≠ .requestStop) (hproceed : e ≠ .proceed)
    (hstep : c.step e = some c') :
    (c.ssl = true ∧ c.isRunning) ∧ ∃ point, c' = { c with point := point } ∧
      (e.Fails → point = .closeCaught ∨ point = .returned) ∧
      (¬ e.Fails → point ∈ [.read, .closeEmpty, .handle, .send, .testStopping]) := by
  have hcaught : ∀ thrown, ∃ point, c.catching thrown = { c with point := point } ∧
      (point = .closeCaught ∨ point = .returned) := by
    intro thrown
    cases thrown with
    | tlsError => exact ⟨.returned, rfl, .inr rfl⟩
    | exception => exact ⟨.closeCaught, rfl, .inl rfl⟩
  cases e with
  | requestStop => exact absurd rfl hstop
  | proceed => exact absurd rfl hproceed
  | shutdown flags =>
    simp only [step] at hstep
    split at hstep
    · rename_i hat
      cases hstep
      rw [Sound, hat.1] at h
      have hopen : c.ssl = true ∧ c.isRunning := by
        apply h.resolve_right
        rw [hat.2]
        simp
      refine ⟨hopen, _, rfl, ?_, ?_⟩
      · intro hfails
        exact .inr (if_neg fun hzero => hfails hzero.1)
      · intro hno
        simp only [CallbackEvent.Fails, ne_eq, not_not] at hno
        simp [hno, hopen.2]
    · cases hstep
  | sslRead got =>
    simp only [step] at hstep
    split at hstep
    · rename_i hat
      rw [Sound, hat] at h
      refine ⟨h, ?_⟩
      by_cases hgot : got ≤ 0
      · simp only [connReadSize, hgot, if_true] at hstep
        cases hstep
        obtain ⟨point, hpoint, hwhere⟩ := hcaught .tlsError
        exact ⟨point, hpoint, fun _ => hwhere, fun hno => absurd hgot hno⟩
      · simp only [connReadSize, hgot, if_false] at hstep
        cases hstep
        refine ⟨_, rfl, fun hfails => absurd hfails hgot, fun _ => ?_⟩
        split <;> simp
    · cases hstep
  | handled thrown | sent thrown =>
    simp only [step] at hstep
    split at hstep
    · rename_i hat
      rw [Sound, hat] at h
      refine ⟨h, ?_⟩
      cases thrown with
      | none =>
        cases hstep
        exact ⟨_, rfl, fun hfails => absurd rfl hfails, fun _ => by simp⟩
      | some thrown =>
        cases hstep
        obtain ⟨point, hpoint, hwhere⟩ := hcaught thrown
        exact ⟨point, hpoint, fun _ => hwhere, fun hno => absurd (Option.some_ne_none _) hno⟩
    · cases hstep

theorem sound_step (h : c.Sound) (hno : ¬ e.Fails) (hstep : c.step e = some c') : c'.Sound := by
  by_cases hstop : e = .requestStop
  · subst hstop
    cases hstep
    exact requestStop_sound h
  by_cases hproceed : e = .proceed
  · subst hproceed
    exact proceed_sound h hstep
  obtain ⟨hopen, point, rfl, -, hpoint⟩ := step_call h hstop hproceed hstep
  have hpoint := hpoint hno
  simp only [List.mem_cons, List.not_mem_nil, or_false] at hpoint
  rcases hpoint with rfl | rfl | rfl | rfl | rfl
  all_goals exact hopen

theorem lost_of_fails (h : c.Sound) (hfails : e.Fails) (hstep : c.step e = some c') :
    c'.Lost := by
  have hstop : e ≠ .requestStop := by
    rintro rfl
    exact hfails
  have hproceed : e ≠ .proceed := by
    rintro rfl
    exact hfails
  obtain ⟨hopen, point, rfl, hpoint, -⟩ := step_call h hstop hproceed hstep
  exact ⟨hpoint hfails, hopen.2⟩

theorem lost_step (h : c.Lost) (hstep : c.step e = some c') : c'.Lost := by
  obtain ⟨hpoint, hrunning⟩ := h
  cases e with
  | requestStop =>
    cases hstep
    rw [requestStop, if_pos hrunning]
    exact ⟨hpoint, .inr rfl⟩
  | proceed =>
    rcases hpoint with hpoint | hpoint
    · simp only [step, hpoint] at hstep
      cases hstep
      exact ⟨.inr rfl, hrunning⟩
    · simp [step, hpoint] at hstep
  | shutdown flags | sslRead got | handled thrown | sent thrown =>
    rcases hpoint with hpoint | hpoint <;> simp [step, hpoint] at hstep

end Points

section Runs

variable {c c' : ThreadConn} {events : List CallbackEvent}

/-- A client sends a request, gets its reply and disconnects. -/
def disconnecting : List CallbackEvent :=
  [.proceed, .shutdown 0, .sslRead 7, .handled none, .sent none, .proceed, .shutdown 0,
    .sslRead 0]

end Runs

/-- A turn of the loop that keeps the connection open leads back to the test. -/
theorem run_of_callbackTurn {c : ThreadConn} {tls : Tls} {env : Env} {turns : ℕ}
    {link link' : Link} {w w' : World} (hpoint : c.point = .testLoop) (hopen : c.ssl = true)
    (hstate : c.state = .running)
    (hturn : callbackTurn tls env turns link w = (some link', w')) :
    ∃ events, (∀ e ∈ events, ¬ e.Fails) ∧ c.run events = some c := by
  obtain ⟨stream, res, -, hsize, -, -⟩ := callbackTurn_eq_some.mp hturn
  refine ⟨[.shutdown 0, .sslRead stream.size, .handled none, .sent none, .proceed], ?_, ?_⟩
  · simp [CallbackEvent.Fails, hsize]
  · have hread : connReadSize stream.size = .ok stream.size := by
      rw [connReadSize, if_neg (by omega)]
      rfl
    obtain ⟨state, ssl, point⟩ := c
    simp only at hpoint hopen hstate
    subst hpoint hopen hstate
    simp [run, Machine.run, step, isRunning, hread, hsize]

end ThreadConn
end Dotchat
