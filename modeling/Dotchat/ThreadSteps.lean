import Dotchat.ThreadConn

/-!
What one step of `callback` does, and what it keeps: where it can go on, how many
requests a thread that is to stop still owes, and that no thread stops by itself.
-/
namespace Dotchat

/-- Where `callback` can go on. A read does not return an empty stream: it throws. -/
def CallbackPoint.next : CallbackPoint → List CallbackPoint
  | .setRunning | .setFinished | .setStopped => [.testLoop]
  | .testLoop => [.read, .returned]
  | .read => [.handle, .returned]
  | .closeEmpty => [.setFinished]
  | .handle => [.send, .returned, .closeCaught]
  | .send => [.testStopping, .returned, .closeCaught]
  | .testStopping => [.closeStopping, .testLoop]
  | .closeStopping => [.setStopped]
  | .closeCaught => [.returned]
  | .returned => []

namespace ThreadConn

/-- The state that a step sets. -/
def stateNext (c : ThreadConn) : ThreadState :=
  match c.point with
  | .setRunning => .running
  | .setFinished => .finished
  | .setStopped => .stopped
  | .testLoop | .read | .closeEmpty | .handle | .send | .testStopping | .closeStopping
  | .closeCaught | .returned => c.state

def sslNext (c : ThreadConn) : Bool :=
  match c.point with
  | .closeEmpty | .closeStopping | .closeCaught => false
  | .setRunning | .testLoop | .read | .setFinished | .handle | .send | .testStopping | .setStopped
  | .returned => c.ssl

/-- A step of `callback`. -/
structure Advances (c : ThreadConn) (e : CallbackEvent) (c' : ThreadConn) : Prop where
  point : c'.point ∈ c.point.next
  state : c'.state = c.stateNext
  ssl : c'.ssl = c.sslNext
  reads : c'.point = .read → c.ssl = true ∧ c.isRunning
  leaves : c.point = .testLoop → c.ssl = false → c'.point = .returned
  stops : c.point = .testStopping → (c'.point = .closeStopping ↔ c.state = .stopping)
  handles : ∀ thrown, e = .handled thrown → c.point = .handle

section Threads

variable {c c' : ThreadConn} {e : CallbackEvent} {events : List CallbackEvent}

theorem advances (he : e ≠ .requestStop) (hstep : c.step e = some c') : c.Advances e c' := by
  obtain ⟨state, ssl, point⟩ := c
  cases e with
  | requestStop => exact absurd rfl he
  | proceed =>
    cases point with
    | testLoop =>
      cases ssl with
      | true => cases hstep
      | false =>
        cases hstep
        constructor <;> simp [CallbackPoint.next, stateNext, sslNext]
    | testStopping =>
      cases hstep
      by_cases hstop : state = .stopping <;>
        constructor <;> simp [CallbackPoint.next, stateNext, sslNext, hstop]
    | read | handle | send | returned => cases hstep
    | setRunning | closeEmpty | setFinished | closeStopping | setStopped | closeCaught =>
      cases hstep
      constructor <;> simp [CallbackPoint.next, stateNext, sslNext, close]
  | shutdown flags =>
    simp only [step] at hstep
    split at hstep
    · rename_i hat
      obtain ⟨hpoint, hssl⟩ := hat
      obtain rfl : point = .testLoop := hpoint
      obtain rfl : ssl = true := hssl
      by_cases hgo : flags = 0 ∧ isRunning { state := state, ssl := true, point := .testLoop }
      · rw [if_pos hgo] at hstep
        cases hstep
        constructor <;> simp [CallbackPoint.next, stateNext, sslNext, hgo.2]
      · rw [if_neg hgo] at hstep
        cases hstep
        constructor <;> simp [CallbackPoint.next, stateNext, sslNext]
    · cases hstep
  | sslRead got =>
    simp only [step] at hstep
    split at hstep
    · rename_i hpoint
      subst hpoint
      by_cases hgot : got ≤ 0
      · simp only [connReadSize, if_pos hgot] at hstep
        cases hstep
        constructor <;> simp [CallbackPoint.next, stateNext, sslNext, catching]
      · have hsize : ¬ got.toNat = 0 := by omega
        simp only [connReadSize, if_neg hgot, if_neg hsize] at hstep
        cases hstep
        constructor <;> simp [CallbackPoint.next, stateNext, sslNext]
    · cases hstep
  | handled thrown | sent thrown =>
    simp only [step] at hstep
    split at hstep
    · rename_i hpoint
      subst hpoint
      rcases thrown with _ | _ | _
      all_goals
        cases hstep
        constructor <;> simp [CallbackPoint.next, stateNext, sslNext, catching]
    · cases hstep

/-- What every thread keeps to. -/
def Fit (c : ThreadConn) : Prop := c.Sound ∨ c.Lost

/-- `callback` has set the state. -/
def Begun (c : ThreadConn) : Prop := c.Fit ∧ c.point ≠ .setRunning

/-- The thread has been asked to stop. -/
def Asked (c : ThreadConn) : Prop := c.state = .stopping ∨ c.isStopped

/-- At most the last test of the loop is left of `callback`. -/
def Over (c : ThreadConn) : Prop := c.point = .returned ∨ c.isStopped

/-- How many requests a thread that is to stop can still handle. -/
def owed (c : ThreadConn) : ℕ :=
  match c.point with
  | .testLoop => if c.ssl then 1 else 0
  | .read | .handle => 1
  | .setRunning | .closeEmpty | .setFinished | .send | .testStopping | .closeStopping | .setStopped
  | .closeCaught | .returned => 0

theorem requestStop_point : c.requestStop.point = c.point := by
  unfold requestStop
  split <;> rfl

theorem requestStop_ssl : c.requestStop.ssl = c.ssl := by
  unfold requestStop
  split <;> rfl

theorem not_running_of_stopped (h : c.isStopped) : ¬ c.isRunning := by
  rcases h with hstate | hstate <;> simp [isRunning, hstate]

theorem requestStop_of_stopped (h : c.isStopped) : c.requestStop = c := by
  rw [requestStop, if_neg (not_running_of_stopped h)]

theorem fit_start : Fit {} := .inl ⟨rfl, rfl⟩

theorem fit_step (h : c.Fit) (hstep : c.step e = some c') : c'.Fit := by
  rcases h with hsound | hlost
  · by_cases hfails : e.Fails
    · exact .inr (lost_of_fails hsound hfails hstep)
    · exact .inl (sound_step hsound hfails hstep)
  · exact .inr (lost_step hlost hstep)

/-- In a final state the connection is closed and the loop is over. -/
theorem Fit.of_stopped (h : c.Fit) (hstopped : c.isStopped) :
    c.ssl = false ∧ (c.point = .testLoop ∨ c.point = .returned) := by
  have hnot := not_running_of_stopped hstopped
  rcases h with hsound | hlost
  · unfold Sound at hsound
    cases hpoint : c.point with
    | testLoop =>
      rw [hpoint] at hsound
      exact ⟨(hsound.resolve_left fun h => hnot h.2).1, .inl rfl⟩
    | returned =>
      rw [hpoint] at hsound
      exact ⟨hsound.1, .inr rfl⟩
    | setRunning =>
      rw [hpoint] at hsound
      rcases hstopped with hstate | hstate <;> simp [hsound.2] at hstate
    | closeCaught =>
      rw [hpoint] at hsound
      exact hsound.elim
    | _ =>
      rw [hpoint] at hsound
      exact absurd hsound.2 hnot
  · exact absurd hlost.2 hnot

theorem setRunning_notMem_next (point : CallbackPoint) : .setRunning ∉ point.next := by
  cases point <;> decide

theorem begun_step (h : c.Begun) (hstep : c.step e = some c') : c'.Begun := by
  refine ⟨fit_step h.1 hstep, ?_⟩
  by_cases he : e = .requestStop
  · subst he
    cases hstep
    rw [requestStop_point]
    exact h.2
  · have hpoint := (advances he hstep).point
    intro hstart
    rw [hstart] at hpoint
    exact setRunning_notMem_next _ hpoint

theorem Begun.running_or_stopped (h : c.Begun) : c.isRunning ∨ c.isStopped := by
  obtain ⟨hsound | hlost, hpoint⟩ := h
  · unfold Sound at hsound
    cases hat : c.point with
    | setRunning => exact absurd hat hpoint
    | testLoop =>
      rw [hat] at hsound
      exact hsound.imp And.right And.right
    | returned =>
      rw [hat] at hsound
      exact .inr hsound.2
    | closeCaught =>
      rw [hat] at hsound
      exact hsound.elim
    | _ =>
      rw [hat] at hsound
      exact .inl hsound.2
  · exact .inl hlost.2

theorem Begun.requestStop (h : c.Begun) : c.requestStop.Asked := by
  rcases h.running_or_stopped with hrunning | hstopped
  · rw [ThreadConn.requestStop, if_pos hrunning]
    exact .inl rfl
  · rw [requestStop_of_stopped hstopped]
    exact .inr hstopped

theorem asked_step (h : c.Begun) (ha : c.Asked) (hstep : c.step e = some c') : c'.Asked := by
  by_cases he : e = .requestStop
  · subst he
    cases hstep
    exact h.requestStop
  · have hstate := (advances he hstep).state
    unfold stateNext at hstate
    cases hpoint : c.point with
    | setRunning => exact absurd hpoint h.2
    | setFinished =>
      rw [hpoint] at hstate
      exact .inr (.inr hstate)
    | setStopped =>
      rw [hpoint] at hstate
      exact .inr (.inl hstate)
    | _ =>
      rw [hpoint] at hstate
      rw [Asked, isStopped, hstate]
      exact ha

theorem over_step (h : c.Fit) (ho : c.Over) (hstep : c.step e = some c') : c'.Over := by
  by_cases he : e = .requestStop
  · subst he
    cases hstep
    rcases ho with hpoint | hstopped
    · exact .inl (requestStop_point.trans hpoint)
    · rw [requestStop_of_stopped hstopped]
      exact .inr hstopped
  · have hadvances := advances he hstep
    have hreturned : c.point ≠ .returned := by
      intro hpoint
      have hnext := hadvances.point
      rw [hpoint] at hnext
      cases hnext
    have hstopped := ho.resolve_left hreturned
    obtain ⟨hssl, hpoint⟩ := h.of_stopped hstopped
    exact .inl (hadvances.leaves (hpoint.resolve_right hreturned) hssl)

theorem owed_of_over (h : c.Fit) (ho : c.Over) : c.owed = 0 := by
  unfold owed
  rcases ho with hpoint | hstopped
  · rw [hpoint]
  · obtain ⟨hssl, hpoint | hpoint⟩ := h.of_stopped hstopped
    · simp [hpoint, hssl]
    · rw [hpoint]

theorem owed_le_one : c.owed ≤ 1 := by
  unfold owed
  cases c.point <;> simp
  split <;> omega

end Threads
end ThreadConn

/-- The number of requests that the event handles. -/
def CallbackEvent.requests : CallbackEvent → ℕ
  | .handled _ => 1
  | .requestStop | .proceed | .shutdown _ | .sslRead _ | .sent _ => 0

namespace ThreadConn

section Stopping

variable {c c' : ThreadConn} {e : CallbackEvent}

theorem Advances.requests_eq_zero (h : c.Advances e c') (hpoint : c.point ≠ .handle) :
    e.requests = 0 := by
  cases e with
  | handled thrown => exact absurd (h.handles thrown rfl) hpoint
  | _ => rfl

theorem requests_le_one (e : CallbackEvent) : e.requests ≤ 1 := by
  cases e <;> simp [CallbackEvent.requests]

/-- A thread that has been asked to stop handles what it owes at most. -/
theorem owed_step (h : c.Begun) (ha : c.Asked) (hstep : c.step e = some c') :
    e.requests + c'.owed ≤ c.owed := by
  by_cases he : e = .requestStop
  · subst he
    cases hstep
    rw [owed, owed, requestStop_point, requestStop_ssl, CallbackEvent.requests, Nat.zero_add]
  · have hadvances := advances he hstep
    have hcost := hadvances.requests_eq_zero
    have hnext := hadvances.point
    cases hpoint : c.point with
    | setRunning => exact absurd hpoint h.2
    | testLoop =>
      rw [hcost (by simp [hpoint])]
      rw [hpoint] at hnext
      simp only [CallbackPoint.next, List.mem_cons, List.not_mem_nil, or_false] at hnext
      rcases hnext with hread | hreturned
      · simp [owed, hpoint, hread, (hadvances.reads hread).1]
      · simp [owed, hreturned]
    | read =>
      have hlast := owed_le_one (c := c')
      rw [hcost (by simp [hpoint])]
      simp only [owed, hpoint, Nat.zero_add] at hlast ⊢
      exact hlast
    | handle =>
      have hone := requests_le_one e
      rw [hpoint] at hnext
      simp only [CallbackPoint.next, List.mem_cons, List.not_mem_nil, or_false] at hnext
      rcases hnext with hnext | hnext | hnext <;> simpa [owed, hpoint, hnext] using hone
    | testStopping =>
      have hstopping : c.state = .stopping := by
        refine ha.resolve_right ?_
        intro hstopped
        rcases (h.1.of_stopped hstopped).2 with hat | hat <;> simp [hpoint] at hat
      rw [hcost (by simp [hpoint])]
      simp [owed, (hadvances.stops hpoint).mpr hstopping]
    | setFinished | setStopped =>
      have hclosed : c.ssl = false := by
        rcases h.1 with hsound | hlost
        · rw [Sound, hpoint] at hsound
          exact hsound.1
        · rcases hlost.1 with hat | hat <;> simp [hpoint] at hat
      have hssl := hadvances.ssl
      rw [hcost (by simp [hpoint])]
      rw [hpoint] at hnext
      simp only [sslNext, hpoint, hclosed] at hssl
      simp only [CallbackPoint.next, List.mem_singleton] at hnext
      simp [owed, hnext, hssl]
    | send =>
      rw [hcost (by simp [hpoint])]
      rw [hpoint] at hnext
      simp only [CallbackPoint.next, List.mem_cons, List.not_mem_nil, or_false] at hnext
      rcases hnext with hnext | hnext | hnext <;> simp [owed, hnext]
    | closeEmpty | closeStopping | closeCaught =>
      rw [hcost (by simp [hpoint])]
      rw [hpoint] at hnext
      simp only [CallbackPoint.next, List.mem_singleton] at hnext
      simp [owed, hnext]
    | returned =>
      rw [hpoint] at hnext
      cases hnext

/-- What `callback` itself does. -/
def own (events : List CallbackEvent) : List CallbackEvent := events.filter (· ≠ .requestStop)

/-- Where `callback` closes the connection and sets a final state. -/
def closing : List CallbackPoint := [.closeEmpty, .setFinished, .closeStopping, .setStopped]

/-- Nobody has asked the thread to stop, and it has not stopped. -/
def Unasked (c : ThreadConn) : Prop :=
  (c.state = .waiting ∨ c.state = .running) ∧ c.point ∉ closing

theorem unasked_start : Unasked {} := ⟨.inl rfl, by decide⟩

theorem Unasked.not_stopped (h : c.Unasked) : ¬ c.isStopped := by
  rcases h.1 with hstate | hstate <;> simp [isStopped, hstate]

theorem Unasked.not_asked (h : c.Unasked) : ¬ c.Asked := by
  rintro (hstate | hstopped)
  · rcases h.1 with hat | hat <;> simp [hstate] at hat
  · exact h.not_stopped hstopped

theorem next_notMem_closing {point : CallbackPoint} (h : point ∉ closing)
    (hne : point ≠ .testStopping) : ∀ next ∈ point.next, next ∉ closing := by
  cases point <;> revert h hne <;> decide

theorem Advances.notMem_closing (h : c.Advances e c') (hpoint : c.point ∉ closing)
    (hstate : c.state ≠ .stopping) : c'.point ∉ closing := by
  by_cases htest : c.point = .testStopping
  · have hnext := h.point
    rw [htest] at hnext
    have hgoes : c'.point ≠ .closeStopping := fun hcloses => hstate ((h.stops htest).mp hcloses)
    rw [List.mem_singleton.mp ((List.mem_cons.mp hnext).resolve_left hgoes)]
    decide
  · exact next_notMem_closing hpoint htest _ h.point

/-- A thread does not stop by itself. -/
theorem unasked_step (h : c.Unasked) (he : e ≠ .requestStop) (hstep : c.step e = some c') :
    c'.Unasked := by
  have hadvances := advances he hstep
  obtain ⟨hrunning, hpoint⟩ := h
  constructor
  · rw [hadvances.state, stateNext]
    cases hat : c.point with
    | setRunning => exact .inr rfl
    | setFinished | setStopped => exact absurd (hat ▸ by decide) hpoint
    | _ => exact hrunning
  · refine hadvances.notMem_closing hpoint ?_
    rcases hrunning with hstate | hstate <;> simp [hstate]

end Stopping
end ThreadConn
end Dotchat
