import Dotchat.ConcurrentRuns
import Dotchat.Shutdown
import Dotchat.Transmission

/-!
The whole server: its process, and what the threads of the connections do in their
turns. A thread reads, decodes, handles and replies; the operations of its handler on
the database happen one by one, between those of other handlers, the steps of `main`
and those of the cleaner.
-/
namespace Dotchat

open Program Threads

/-- What the local variables of `callback` hold. -/
inductive InHand
  | nothing
  | stream (bytes : Bytes)
  | request (job : Job) (handler : Handler Message)
  | reply (res : Message)

/-- What the thread of a connection has read and written, and what it has in hand. -/
structure Traffic where
  received : List Bytes := []
  written : List Bytes := []
  conn : TlsConnection := {}
  hand : InHand := .nothing

structure RunningServer where
  process : ServerProcess := {}
  world : World := {}
  traffic : ℕ → Traffic := fun _ => {}

/-- A step of the process without data, or a thread has read something, has decoded
it, has made the next call of its handler, has left `handle`, or has called `send`,
where `SSL_write` returned `result`. -/
inductive RunningEvent
  | process (e : ServerEvent)
  | received (id : ℕ) (bytes : Bytes)
  | decoded (id turns : ℕ)
  | called (id : ℕ)
  | handled (id : ℕ)
  | sent (id : ℕ) (result : ℤ)

/-- No thread gets anything in hand or gives it away. -/
def ServerEvent.Dataless : ServerEvent → Prop
  | .callback _ (.sslRead got) => got ≤ 0
  | .callback _ (.handled _) | .callback _ (.sent _) => False
  | .callback _ .requestStop | .callback _ .proceed | .callback _ (.shutdown _) | .enlist
  | .interrupt | .acceptThrows | .main | .cleanup _ => True

instance (e : ServerEvent) : Decidable e.Dataless := by
  unfold ServerEvent.Dataless
  split <;> infer_instance

namespace RunningServer

variable (env : Env) (s : RunningServer)

/-- A thread has something else in hand. -/
def holds (id : ℕ) (hand : InHand) : RunningServer :=
  { s with traffic := Function.update s.traffic id { s.traffic id with hand := hand } }

/-- A step of `callback` that changes the traffic of its connection. -/
def turn (id : ℕ) (e : CallbackEvent) (t : Traffic) : Option RunningServer := do
  let p ← s.process.step (.callback id e)
  pure { s with process := p, traffic := Function.update s.traffic id t }

/-- There is no step behind an access past the end of the stream. -/
def step : RunningEvent → Option RunningServer
  | .process e =>
      if e.Dataless then do
        let p ← s.process.step e
        pure { s with process := p }
      else none
  | .received id bytes =>
      if 0 < bytes.length ∧ bytes.length ≤ 1023 then
        s.turn id (.sslRead bytes.length)
          { s.traffic id with
            received := (s.traffic id).received ++ [bytes], hand := .stream bytes }
      else none
  | .decoded id turns =>
      match (s.traffic id).hand with
      | .stream bytes =>
          match Message.ofStream (Bytestream.overwrite {} bytes) with
          | .ok got _ => some (s.holds id (.request ⟨turns, got⟩ (dispatch turns got)))
          | .error (.thrown _) _ =>
              s.turn id (.handled (some .exception)) { s.traffic id with hand := .nothing }
          | .error _ _ => none
      | _ => none
  | .called id =>
      match (s.traffic id).hand with
      | .request job (.call c next) =>
          some { s.holds id (.request job (next (perform env c s.world).1)) with
            world := (perform env c s.world).2 }
      | _ => none
  | .handled id =>
      match (s.traffic id).hand with
      | .request _ (.done (.returned res)) =>
          s.turn id (.handled none) { s.traffic id with hand := .reply res }
      | .request _ (.done (.threw _)) =>
          s.turn id (.handled (some .exception)) { s.traffic id with hand := .nothing }
      | _ => none
  | .sent id result =>
      match (s.traffic id).hand with
      | .reply res =>
          match res.sendTo {} with
          | .ok () strm =>
              let sent := (s.traffic id).conn.send result strm
              if sent.returned then
                s.turn id (.sent none)
                  { s.traffic id with
                    written := (s.traffic id).written ++ [sent.handed], conn := sent.conn,
                    hand := .nothing }
              else
                s.turn id (.sent (some .tlsError))
                  { s.traffic id with conn := sent.conn, hand := .nothing }
          | .error (.thrown _) _ =>
              s.turn id (.sent (some .exception)) { s.traffic id with hand := .nothing }
          | .error _ _ => none
      | _ => none

def run (events : List RunningEvent) : Option RunningServer := Machine.run (step env) s events

end RunningServer

/-- How the traffic of a connection changes in a step of `callback`. -/
inductive Traffic.Turn (t : Traffic) : CallbackEvent → Traffic → Prop
  | receives {bytes : Bytes} (hpos : 0 < bytes.length) : Turn t (.sslRead bytes.length)
      { t with received := t.received ++ [bytes], hand := .stream bytes }
  | undecodable {bytes : Bytes} (hhand : t.hand = .stream bytes) :
      Turn t (.handled (some .exception)) { t with hand := .nothing }
  | returns {job : Job} {res : Message} (hhand : t.hand = .request job (.done (.returned res))) :
      Turn t (.handled none) { t with hand := .reply res }
  | throws {job : Job} {e : Exc} (hhand : t.hand = .request job (.done (.threw e))) :
      Turn t (.handled (some .exception)) { t with hand := .nothing }
  | sends {res : Message} {strm : Bytestream} {result : ℤ} (hhand : t.hand = .reply res)
      (hstrm : res.sendTo {} = .ok () strm) : Turn t (.sent none)
      { t with
        written := t.written ++ [(t.conn.send result strm).handed]
        conn := (t.conn.send result strm).conn
        hand := .nothing }
  | unsent {res : Message} {thrown : Thrown} {conn : TlsConnection} (hhand : t.hand = .reply res) :
      Turn t (.sent (some thrown)) { t with conn := conn, hand := .nothing }

namespace RunningServer

/-- What the steps of the server do. -/
inductive RunningStep (env : Env) (s : RunningServer) : RunningServer → Prop
  | process {e : ServerEvent} {p : ServerProcess} (he : e.Dataless)
      (hp : s.process.step e = some p) : RunningStep env s { s with process := p }
  | turn {id : ℕ} {e : CallbackEvent} {t : Traffic} {p : ServerProcess}
      (ht : (s.traffic id).Turn e t) (hp : s.process.step (.callback id e) = some p) :
      RunningStep env s { s with process := p, traffic := Function.update s.traffic id t }
  | decodes {id turns : ℕ} {bytes : Bytes} {got : Message} {strm : Bytestream}
      (hhand : (s.traffic id).hand = .stream bytes)
      (hgot : Message.ofStream (Bytestream.overwrite {} bytes) = .ok got strm) :
      RunningStep env s (s.holds id (.request ⟨turns, got⟩ (Job.program ⟨turns, got⟩)))
  | calls {id : ℕ} {job : Job} {c : Call} {next : Except Exc c.Answer → Handler Message}
      (hhand : (s.traffic id).hand = .request job (.call c next)) :
      RunningStep env s { s.holds id (.request job (next (perform env c s.world).1)) with
        world := (perform env c s.world).2 }

variable {env : Env} {s s' : RunningServer} {e : RunningEvent}

theorem turn_of_eq_some {id : ℕ} {e : CallbackEvent} {t : Traffic} (ht : (s.traffic id).Turn e t)
    (h : s.turn id e t = some s') : RunningStep env s s' := by
  obtain ⟨p, hp, h⟩ := Option.bind_eq_some_iff.mp h
  cases h
  exact .turn ht hp

theorem step_cases (h : s.step env e = some s') : RunningStep env s s' := by
  cases e with
  | process e =>
    simp only [step] at h
    split at h
    · rename_i he
      obtain ⟨p, hp, h⟩ := Option.bind_eq_some_iff.mp h
      cases h
      exact .process he hp
    · cases h
  | received id bytes =>
    simp only [step] at h
    split at h
    · rename_i hlen
      exact turn_of_eq_some (.receives hlen.1) h
    · cases h
  | decoded id turns =>
    simp only [step] at h
    split at h
    · rename_i bytes hhand
      split at h
      · rename_i got strm hgot
        cases h
        exact .decodes hhand hgot
      · exact turn_of_eq_some (.undecodable hhand) h
      · cases h
    · cases h
  | called id =>
    simp only [step] at h
    split at h
    · rename_i hhand
      cases h
      exact .calls hhand
    · cases h
  | handled id =>
    simp only [step] at h
    split at h
    · rename_i hhand
      exact turn_of_eq_some (.returns hhand) h
    · rename_i hhand
      exact turn_of_eq_some (.throws hhand) h
    · cases h
  | sent id result =>
    simp only [step] at h
    split at h
    · rename_i res hhand
      split at h
      · rename_i strm hstrm
        split at h
        · exact turn_of_eq_some (.sends hhand hstrm) h
        · exact turn_of_eq_some (.unsent hhand) h
      · exact turn_of_eq_some (.unsent hhand) h
      · cases h
    · cases h

/-- The process does not depend on the data. -/
theorem RunningStep.process_run (h : RunningStep env s s') :
    ∃ events, s.process.run events = some s'.process := by
  cases h with
  | process _ hp => exact ⟨_, Machine.run_singleton.trans hp⟩
  | turn _ hp => exact ⟨_, Machine.run_singleton.trans hp⟩
  | decodes _ _ => exact ⟨[], rfl⟩
  | calls _ => exact ⟨[], rfl⟩

theorem process_run {events : List RunningEvent} (hrun : run env s events = some s') :
    ∃ events, s.process.run events = some s'.process := by
  refine Machine.run_invariant (I := fun t => ∃ events, s.process.run events = some t.process)
    ?_ ⟨[], rfl⟩ hrun
  rintro t e t' ⟨events, hevents⟩ hstep
  obtain ⟨more, hmore⟩ := (step_cases hstep).process_run
  exact ⟨events ++ more, Machine.run_append_eq_some.mpr ⟨_, hevents, hmore⟩⟩

end RunningServer
end Dotchat
