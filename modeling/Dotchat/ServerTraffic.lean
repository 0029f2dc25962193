import Dotchat.RunningServer
import Dotchat.ShutdownProgress

/-!
What clients get from the running server. Each connection is served on its own: its
requests are handled one after the other, each of them once, and the replies written to
it are those of its requests, in order. The handlers of all connections together are a
pool of threads on the database, so what holds of the database in every interleaving of
handlers holds in the running server.
-/
namespace Dotchat

open Program Threads

/-- Points behind an exception. -/
def CallbackPoint.leaving : List CallbackPoint := [.closeCaught, .returned]

/-- Only reads and `handle` lead to the points with something in hand. -/
theorem CallbackPoint.next_empty {point : CallbackPoint} (h : point ∉ [.read, .handle, .send]) :
    ∀ q ∈ point.next, q ∉ [.handle, .send] ∧ (point ∈ leaving → q ∈ leaving) := by
  cases point <;> revert h <;> decide

/-- A step that carries no data. -/
theorem ThreadConn.step_dataless {c c' : ThreadConn} {e : CallbackEvent} {id : ℕ}
    (he : (ServerEvent.callback id e).Dataless) (hne : e ≠ .requestStop)
    (hstep : c.step e = some c') :
    c.point ∉ [.handle, .send] ∧ c'.point ∉ [.handle, .send] ∧
      (c.point ∈ CallbackPoint.leaving → c'.point ∈ CallbackPoint.leaving) := by
  by_cases hread : c.point = .read
  · have hpoint : c'.point = .returned := by
      cases e with
      | requestStop => exact absurd rfl hne
      | proceed | shutdown _ => simp [step, hread] at hstep
      | handled _ | sent _ => exact he.elim
      | sslRead got =>
        have hgot : got ≤ 0 := he
        simp only [step, hread, if_true, connReadSize, if_pos hgot] at hstep
        cases hstep
        rfl
    simp [hread, hpoint, CallbackPoint.leaving]
  · have hidle : c.point ∉ [.read, .handle, .send] := by
      cases e with
      | requestStop => exact absurd rfl hne
      | handled _ | sent _ => exact he.elim
      | proceed | shutdown _ | sslRead _ => cases hpoint : c.point <;> simp_all [step]
    have hnext := CallbackPoint.next_empty hidle _ (advances hne hstep).point
    exact ⟨fun h => hidle (List.mem_cons_of_mem _ h), hnext⟩

namespace ThreadConn

variable {c c' : ThreadConn}

theorem point_of_received {bytes : Bytes} (hpos : 0 < bytes.length)
    (h : c.step (.sslRead bytes.length) = some c') : c.point = .read ∧ c'.point = .handle := by
  simp only [step] at h
  split at h
  · rename_i hpoint
    rw [connReadSize, if_neg (by omega)] at h
    simp only [Int.toNat_natCast, if_neg hpos.ne'] at h
    cases h
    exact ⟨hpoint, rfl⟩
  · cases h

theorem point_of_handled {thrown : Option Thrown} (h : c.step (.handled thrown) = some c') :
    c.point = .handle ∧ (thrown = none → c'.point = .send) ∧
      (thrown ≠ none → c'.point ∈ CallbackPoint.leaving) := by
  simp only [step] at h
  split at h
  · rename_i hpoint
    refine ⟨hpoint, ?_⟩
    rcases thrown with _ | (_ | _) <;> cases h <;> simp [catching, CallbackPoint.leaving]
  · cases h

theorem point_of_sent {thrown : Option Thrown} (h : c.step (.sent thrown) = some c') :
    c.point = .send ∧ (thrown = none → c'.point = .testStopping) ∧
      (thrown ≠ none → c'.point ∈ CallbackPoint.leaving) := by
  simp only [step] at h
  split at h
  · rename_i hpoint
    refine ⟨hpoint, ?_⟩
    rcases thrown with _ | (_ | _) <;> cases h <;> simp [catching, CallbackPoint.leaving]
  · cases h

end ThreadConn

/-- A handler with its connection and its request. -/
abbrev HandlerThread := Thread (ℕ × Job) Call Call.Answer Exc Message

abbrev HandlerPool := Pool (ℕ × Job) Call Call.Answer Exc Message World

/-- `handle` gets the message out of what was read. -/
def ReadAs (bytes : Bytes) (m : Message) : Prop :=
  ∃ strm, Message.ofStream (Bytestream.overwrite {} bytes) = .ok m strm

/-- A request that was answered: what was read, the calls of its handler, the reply. -/
structure ServedRequest where
  bytes : Bytes
  job : Job
  trace : Trace
  reply : Message

namespace ServedRequest

def thread (id : ℕ) (a : ServedRequest) : HandlerThread :=
  ⟨(id, a.job), .done (.returned a.reply), a.trace⟩

/-- What is handed to `SSL_write`, whose length is an `int`. -/
def out (a : ServedRequest) : Bytes := a.reply.wire.take (toInt a.reply.wire.length).toNat

structure Proper (a : ServedRequest) : Prop where
  readAs : ReadAs a.bytes a.job.msg
  sendable : a.reply.Sendable

end ServedRequest

/-- What a connection has behind the requests that were answered: nothing, a request
in hand, or the one that made its thread leave. -/
inductive Underway (id : ℕ) :
    List Bytes → List HandlerThread → InHand → Option CallbackPoint → Prop
  | idle {point : Option CallbackPoint} (h : ∀ q, point = some q → q ∉ [.handle, .send]) :
      Underway id [] [] .nothing point
  | reading {bytes : Bytes} : Underway id [bytes] [] (.stream bytes) (some .handle)
  | handling {bytes : Bytes} {job : Job} {handler : Handler Message} {trace : Trace}
      (hreadAs : ReadAs bytes job.msg) :
      Underway id [bytes] [⟨(id, job), handler, trace⟩] (.request job handler) (some .handle)
  | replying {bytes : Bytes} {job : Job} {res : Message} {trace : Trace}
      (hreadAs : ReadAs bytes job.msg) :
      Underway id [bytes] [⟨(id, job), .done (.returned res), trace⟩] (.reply res) (some .send)
  | undecoded {bytes : Bytes} {point : Option CallbackPoint}
      (h : ∀ q, point = some q → q ∈ CallbackPoint.leaving) :
      Underway id [bytes] [] .nothing point
  | failed {bytes : Bytes} {job : Job} {o : Outcome Exc Message} {trace : Trace}
      {point : Option CallbackPoint} (hreadAs : ReadAs bytes job.msg)
      (h : ∀ q, point = some q → q ∈ CallbackPoint.leaving) :
      Underway id [bytes] [⟨(id, job), .done o, trace⟩] .nothing point

/-- The requests of a connection are handled once each and in order, and its replies
are theirs. -/
def Attends (id : ℕ) (threads : List HandlerThread) (t : Traffic) (point : Option CallbackPoint) :
    Prop :=
  ∃ (answered : List ServedRequest) (rest : List Bytes) (last : List HandlerThread),
    (∀ a ∈ answered, a.Proper) ∧ t.received = answered.map (·.bytes) ++ rest ∧
      threads = answered.map (·.thread id) ++ last ∧ t.written = answered.map (·.out) ∧
      Underway id rest last t.hand point

section Turns

variable {id : ℕ} {rest : List Bytes} {last threads : List HandlerThread} {hand : InHand}
  {point : Option CallbackPoint} {t t' : Traffic}

/-- Steps without data leave what is underway alone. -/
theorem Underway.pointStep {p : ServerProcess} {e : ServerEvent}
    (h : Underway id rest last hand (p.pointAt id)) (hp : p.Regular) (he : e.Dataless)
    (hfresh : p.nextId = id → rest = []) (hstep : p.PointStep id e point) :
    Underway id rest last hand point := by
  generalize hpoint : p.pointAt id = before at h
  cases hstep with
  | stays => rwa [hpoint]
  | starts hid =>
    have hnone : before = none := by
      rw [← hpoint, ServerProcess.pointAt, Option.map_eq_none_iff, ServerProcess.find_eq_none]
      intro t ht
      have hlt := hp.numbered.lt t ht
      omega
    subst hnone
    cases h with
    | idle _ => exact .idle (by simp)
    | undecoded _ | failed _ _ => cases hfresh hid
  | advances hne ht hc =>
    rw [ServerProcess.pointAt, ht] at hpoint
    obtain ⟨hbefore, hafter, hleaving⟩ := ThreadConn.step_dataless he hne hc
    cases h with
    | idle _ => exact .idle fun q hq => Option.some.inj hq ▸ hafter
    | reading | handling _ | replying _ => simp [Option.some.inj hpoint] at hbefore
    | undecoded h =>
      exact .undecoded fun q hq => Option.some.inj hq ▸ hleaving (h _ hpoint.symm)
    | failed hread h =>
      exact .failed hread fun q hq => Option.some.inj hq ▸ hleaving (h _ hpoint.symm)
  | drops ht hstopped =>
    rw [ServerProcess.pointAt, ht] at hpoint
    have hfinal := ((hp.kept _ (ServerProcess.mem_of_find ht).1).of_stopped hstopped).2
    cases h with
    | idle _ => exact .idle (by simp)
    | reading | handling _ | replying _ => simp [Option.some.inj hpoint] at hfinal
    | undecoded _ => exact .undecoded (by simp)
    | failed hread _ => exact .failed hread (by simp)

theorem handed_of_sendTo (conn : TlsConnection) (result : ℤ) {res : Message} {strm : Bytestream}
    (h : res.sendTo {} = .ok () strm) : res.Sendable ∧
      (conn.send result strm).handed = res.wire.take (toInt res.wire.length).toNat := by
  obtain ⟨hsendable, rfl⟩ := Message.sendTo_eq_ok h
  refine ⟨hsendable, ?_⟩
  have hdata : (({} : Bytestream).add res.wire).data = res.wire := List.nil_append _
  have hsize : (({} : Bytestream).add res.wire).size = res.wire.length := by
    rw [Bytestream.size_of_valid (Bytestream.add_valid (Nat.zero_le _) _), Bytestream.unread, hdata]
    rfl
  rw [send_handed, hdata, hsize]

/-- What a turn of `callback` does with what it has in hand. -/
theorem Attends.turn {c c' : ThreadConn} {e : CallbackEvent}
    (h : Attends id threads t (some c.point)) (hturn : t.Turn e t') (hc : c.step e = some c') :
    Attends id threads t' (some c'.point) := by
  obtain ⟨answered, rest, last, hproper, hreceived, hthreads, hwritten, hunderway⟩ := h
  generalize hhand : t.hand = hand at hunderway
  generalize hpoint : some c.point = point at hunderway
  cases hturn with
  | @receives bytes hpos =>
    obtain ⟨hat, hnext⟩ := ThreadConn.point_of_received hpos hc
    rw [hat] at hpoint
    refine ⟨answered, [bytes], [], hproper, ?_, ?_, hwritten, ?_⟩
    · cases hunderway with
      | idle _ => rw [hreceived, List.append_nil]
      | reading | handling _ | replying _ => cases hpoint
      | undecoded hleaves | failed _ hleaves =>
        simpa [CallbackPoint.leaving] using hleaves _ hpoint.symm
    · cases hunderway with
      | idle _ => exact hthreads
      | reading | handling _ | replying _ => cases hpoint
      | undecoded hleaves | failed _ hleaves =>
        simpa [CallbackPoint.leaving] using hleaves _ hpoint.symm
    · rw [hnext]
      exact .reading
  | undecodable hstream =>
    have hleaves := (ThreadConn.point_of_handled hc).2.2 (by simp)
    cases hhand.symm.trans hstream
    cases hunderway with
    | reading =>
      exact ⟨answered, _, _, hproper, hreceived, hthreads, hwritten,
        .undecoded fun q hq => Option.some.inj hq ▸ hleaves⟩
  | returns hrequest =>
    have hnext := (ThreadConn.point_of_handled hc).2.1 rfl
    cases hhand.symm.trans hrequest
    cases hunderway with
    | handling hread =>
      rw [hnext]
      exact ⟨answered, _, _, hproper, hreceived, hthreads, hwritten, .replying hread⟩
  | throws hrequest =>
    have hleaves := (ThreadConn.point_of_handled hc).2.2 (by simp)
    cases hhand.symm.trans hrequest
    cases hunderway with
    | handling hread =>
      exact ⟨answered, _, _, hproper, hreceived, hthreads, hwritten,
        .failed hread fun q hq => Option.some.inj hq ▸ hleaves⟩
  | @sends res strm result hreply hstrm =>
    have hnext := (ThreadConn.point_of_sent hc).2.1 rfl
    obtain ⟨hsendable, hhanded⟩ := handed_of_sendTo t.conn result hstrm
    cases hhand.symm.trans hreply
    cases hunderway with
    | @replying bytes job res trace hread =>
      refine ⟨answered ++ [⟨bytes, job, trace, res⟩], [], [], ?_, ?_, ?_, ?_, ?_⟩
      · intro a ha
        rcases List.mem_append.mp ha with ha | ha
        · exact hproper a ha
        · obtain rfl := List.mem_singleton.mp ha
          exact ⟨hread, hsendable⟩
      · rw [hreceived, List.map_append, List.append_nil, List.map_singleton]
      · rw [hthreads, List.map_append, List.append_nil, List.map_singleton]
        rfl
      · rw [hwritten, hhanded, List.map_append, List.map_singleton]
        rfl
      · rw [hnext]
        exact .idle fun q hq => by simp [← Option.some.inj hq]
  | unsent hreply =>
    have hleaves := (ThreadConn.point_of_sent hc).2.2 (by simp)
    cases hhand.symm.trans hreply
    cases hunderway with
    | replying hread =>
      exact ⟨answered, _, _, hproper, hreceived, hthreads, hwritten,
        .failed hread fun q hq => Option.some.inj hq ▸ hleaves⟩

end Turns

/-- The handlers behind a running server are a pool. -/
structure Attended (env : Env) (pool : HandlerPool) (s : RunningServer) : Prop where
  reached : Reached (perform env) (fun l : ℕ × Job => l.2.program) {} pool
  store : pool.store = s.world
  fresh : ∀ id, s.process.nextId ≤ id → s.traffic id = {}
  attends : ∀ id, Attends id (pool.threads.filter (·.label.1 = id)) (s.traffic id)
    (s.process.pointAt id)

namespace Attended

variable {env : Env} {pool : HandlerPool} {s s' : RunningServer} {id : ℕ}

theorem process (h : Attended env pool s) (hp : s.process.Regular) {e : ServerEvent}
    {p : ServerProcess} (he : e.Dataless) (hstep : s.process.step e = some p) :
    Attended env pool { s with process := p } := by
  have hcases := ServerProcess.step_cases hstep
  refine ⟨h.reached, h.store, fun id hid => h.fresh id ?_, fun id => ?_⟩
  · exact le_trans (ServerProcess.nextId_le hcases) hid
  · obtain ⟨answered, rest, last, hproper, hreceived, hthreads, hwritten, hunderway⟩ := h.attends id
    refine ⟨answered, rest, last, hproper, hreceived, hthreads, hwritten, ?_⟩
    refine hunderway.pointStep hp he ?_ (ServerProcess.pointAt_step hp.numbered hcases id)
    intro hid
    have hnew := h.fresh id hid.le
    rw [hnew] at hreceived
    exact (List.append_eq_nil_iff.mp hreceived.symm).2

theorem turn (h : Attended env pool s) (hp : s.process.Regular) {e : CallbackEvent} {t : Traffic}
    {p : ServerProcess} (hturn : (s.traffic id).Turn e t)
    (hstep : s.process.step (.callback id e) = some p) :
    Attended env pool { s with process := p, traffic := Function.update s.traffic id t } := by
  cases ServerProcess.step_cases hstep with
  | @callback _ u _ c he hu hc =>
    refine ⟨h.reached, h.store, fun other hother => ?_, fun other => ?_⟩
    · have hne : other ≠ id := by
        rintro rfl
        obtain ⟨hmem, hid⟩ := ServerProcess.mem_of_find hu
        have hlt := hp.numbered.lt u hmem
        have hle : s.process.nextId ≤ other := hother
        omega
      show Function.update s.traffic id t other = {}
      rw [Function.update_of_ne hne]
      exact h.fresh other hother
    · show Attends other _ (Function.update s.traffic id t other) _
      by_cases hother : other = id
      · subst hother
        rw [Function.update_self, ServerProcess.pointAt, ServerProcess.find_setConn_self hu]
        have hattends := h.attends other
        rw [ServerProcess.pointAt, hu] at hattends
        exact hattends.turn hturn hc
      · rw [Function.update_of_ne hother, ServerProcess.pointAt,
          ServerProcess.find_setConn_of_ne (Ne.symm hother)]
        exact h.attends other

/-- A thread with something in hand is not a new one. -/
theorem fresh_holds (h : Attended env pool s) (hhand : (s.traffic id).hand ≠ .nothing)
    (hand : InHand) : ∀ other, s.process.nextId ≤ other → (s.holds id hand).traffic other = {} := by
  intro other hother
  have hne : other ≠ id := by
    rintro rfl
    rw [h.fresh other hother] at hhand
    exact hhand rfl
  show Function.update s.traffic id _ other = {}
  rw [Function.update_of_ne hne]
  exact h.fresh other hother

theorem decodes (h : Attended env pool s) {turns : ℕ} {bytes : Bytes} {got : Message}
    (hhand : (s.traffic id).hand = .stream bytes) (hread : ReadAs bytes got) :
    Attended env
      { pool with threads := pool.threads ++ [⟨(id, ⟨turns, got⟩), Job.program ⟨turns, got⟩, []⟩] }
      (s.holds id (.request ⟨turns, got⟩ (Job.program ⟨turns, got⟩))) := by
  refine ⟨.step h.reached (.spawn pool (id, ⟨turns, got⟩)), h.store,
    h.fresh_holds (by simp [hhand]) _, fun other => ?_⟩
  simp only [List.filter_append]
  show Attends other _ (Function.update s.traffic id _ other) (s.process.pointAt other)
  obtain ⟨answered, rest, last, hproper, hreceived, hthreads, hwritten, hunderway⟩ :=
    h.attends other
  by_cases hother : other = id
  · subst hother
    rw [hhand] at hunderway
    generalize hpoint : s.process.pointAt other = point at hunderway
    cases hunderway with
    | reading =>
      rw [Function.update_self, hthreads]
      refine ⟨answered, [bytes], [⟨(other, ⟨turns, got⟩), Job.program ⟨turns, got⟩, []⟩], hproper,
        hreceived, ?_, hwritten, .handling hread⟩
      simp
  · rw [Function.update_of_ne hother, hthreads]
    refine ⟨answered, rest, last, hproper, hreceived, ?_, hwritten, hunderway⟩
    simp [Ne.symm hother]

/-- The thread of a handler, among those of its connection the last one. -/
theorem exists_last (h : Attended env pool s) {job : Job} {handler : Handler Message}
    (hhand : (s.traffic id).hand = .request job handler) : ∃ before after trace,
      pool.threads = before ++ ⟨(id, job), handler, trace⟩ :: after ∧
        after.filter (·.label.1 = id) = [] := by
  obtain ⟨answered, rest, last, -, -, hthreads, -, hunderway⟩ := h.attends id
  rw [hhand] at hunderway
  generalize s.process.pointAt id = point at hunderway
  cases hunderway with
  | @handling _ _ _ trace _ =>
    obtain ⟨first, second, hsplit, -, hlast⟩ := List.filter_eq_append_iff.mp hthreads
    obtain ⟨before, after, rfl, -, -, hafter⟩ := List.filter_eq_cons_iff.mp hlast
    exact ⟨first ++ before, after, trace, by rw [hsplit, List.append_assoc], hafter⟩

theorem calls (h : Attended env pool s) {job : Job} {c : Call}
    {next : Except Exc c.Answer → Handler Message}
    (hhand : (s.traffic id).hand = .request job (.call c next)) : ∃ pool', Attended env pool'
      { s.holds id (.request job (next (perform env c s.world).1)) with
        world := (perform env c s.world).2 } := by
  obtain ⟨threads, w⟩ := pool
  obtain rfl : w = s.world := h.store
  obtain ⟨before, after, trace, hsplit, hafter⟩ := h.exists_last hhand
  simp only at hsplit
  subst hsplit
  refine ⟨_, .step h.reached (.call before after (id, job) c next trace s.world), rfl,
    h.fresh_holds (by simp [hhand]) _, fun other => ?_⟩
  show Attends other _ (Function.update s.traffic id _ other) (s.process.pointAt other)
  obtain ⟨answered, rest, last, hproper, hreceived, hthreads, hwritten, hunderway⟩ :=
    h.attends other
  by_cases hother : other = id
  · subst hother
    rw [hhand] at hunderway
    generalize s.process.pointAt other = point at hunderway ⊢
    cases hunderway with
    | @handling bytes _ _ _ hread =>
      simp only [List.filter_append, List.filter_cons, decide_true, if_true, hafter] at hthreads ⊢
      obtain ⟨hbefore, hlast⟩ := List.append_inj' hthreads rfl
      cases hlast
      rw [Function.update_self, hbefore]
      exact ⟨answered, _, _, hproper, hreceived, rfl, hwritten, .handling hread⟩
  · rw [Function.update_of_ne hother]
    refine ⟨answered, rest, last, hproper, hreceived, ?_, hwritten, hunderway⟩
    rw [← hthreads]
    simp [List.filter_append, Ne.symm hother]

theorem step (h : Attended env pool s) (hp : s.process.Regular) (hstep : s.RunningStep env s') :
    ∃ pool', Attended env pool' s' := by
  cases hstep with
  | process he hstep => exact ⟨pool, h.process hp he hstep⟩
  | turn hturn hstep => exact ⟨pool, h.turn hp hturn hstep⟩
  | decodes hhand hgot => exact ⟨_, h.decodes hhand ⟨_, hgot⟩⟩
  | calls hhand => exact h.calls hhand

theorem start : Attended env { store := {} } {} where
  reached := .init
  store := rfl
  fresh _ _ := rfl
  attends _ := ⟨[], [], [], by simp, rfl, rfl, rfl, .idle (by simp [ServerProcess.pointAt,
    ServerProcess.find, Table.lookup])⟩

/-- A thread that is in `handle` stands there. -/
theorem pointAt_of_request (h : Attended env pool s) {job : Job} {handler : Handler Message}
    (hhand : (s.traffic id).hand = .request job handler) :
    s.process.pointAt id = some .handle := by
  obtain ⟨_, _, _, -, -, -, -, hunderway⟩ := h.attends id
  rw [hhand] at hunderway
  generalize s.process.pointAt id = point at hunderway ⊢
  cases hunderway with
  | handling _ => rfl

/-- Handlers end before their threads have something else in hand. -/
theorem ended (h : Attended env pool s)
    (hquiet : ∀ id job handler, (s.traffic id).hand ≠ .request job handler) :
    ∀ t ∈ pool.threads, ∃ o, t.program = .done o := by
  intro t ht
  obtain ⟨id, hid⟩ : ∃ id, t.label.1 = id := ⟨_, rfl⟩
  obtain ⟨answered, rest, last, -, -, hthreads, -, hunderway⟩ := h.attends id
  have hmem : t ∈ pool.threads.filter (·.label.1 = id) :=
    List.mem_filter.mpr ⟨ht, decide_eq_true hid⟩
  rw [hthreads] at hmem
  rcases List.mem_append.mp hmem with hmem | hmem
  · obtain ⟨a, -, rfl⟩ := List.mem_map.mp hmem
    exact ⟨_, rfl⟩
  · generalize hhand : (s.traffic id).hand = hand at hunderway
    generalize s.process.pointAt id = point at hunderway
    cases hunderway with
    | idle _ | reading | undecoded _ => cases hmem
    | handling _ => exact absurd hhand (hquiet _ _ _)
    | replying _ | failed _ _ =>
      obtain rfl := List.mem_singleton.mp hmem
      exact ⟨_, rfl⟩

end Attended

namespace RunningServer

variable {env : Env} {s s' : RunningServer} {events before more : List RunningEvent}

theorem regular_run (hrun : run env {} events = some s) : s.process.Regular := by
  obtain ⟨steps, hsteps⟩ := process_run hrun
  exact ServerProcess.regular_start.run hsteps

theorem attended_run (hrun : run env {} events = some s) : ∃ pool, Attended env pool s := by
  refine Machine.run_history (H := fun _ s => ∃ pool, Attended env pool s) ⟨_, .start⟩ ?_ hrun
  rintro before t e t' hbefore ⟨pool, hpool⟩ hstep
  exact hpool.step (regular_run hbefore) (step_cases hstep)

/-- Every connection gets the replies of its own requests, in order, whatever the
other threads do; and the database is that of a pool of the handlers. -/
theorem exists_pool (hrun : run env {} events = some s) : ∃ pool : HandlerPool,
    Reached (perform env) (fun l : ℕ × Job => l.2.program) {} pool ∧ pool.store = s.world ∧
      ∀ id, Attends id (pool.threads.filter (·.label.1 = id)) (s.traffic id)
        (s.process.pointAt id) := by
  obtain ⟨pool, hpool⟩ := attended_run hrun
  exact ⟨pool, hpool.reached, hpool.store, hpool.attends⟩

/-- A connection is accepted and sends a message. -/
def opening (id : ℕ) (m : Message) : List RunningEvent :=
  [.process .enlist, .process .main, .process (.callback id .proceed),
    .process (.callback id (.shutdown 0)), .received id m.wire, .decoded id 1]

/-- The same, where the thread reads before its constructor has returned. -/
def openingEarly (id : ℕ) (m : Message) : List RunningEvent :=
  [.process .enlist, .process (.callback id .proceed), .process (.callback id (.shutdown 0)),
    .received id m.wire, .process .main, .decoded id 1]

/-- While the login of one connection is handled, the message of another one is. -/
def interwoven : List RunningEvent :=
  opening 0 masterLogin ++ List.replicate 5 (.called 0) ++ openingEarly 1 (note "a") ++
    List.replicate 6 (.called 1) ++ [.handled 1, .handled 0, .sent 1 1, .sent 0 1]

theorem exists_pool_interwoven : ∃ s, run twoDaysLater {} interwoven = some s ∧
    ∃ pool : HandlerPool,
      Reached (perform twoDaysLater) (fun l : ℕ × Job => l.2.program) {} pool ∧
        pool.store = s.world ∧
        ∀ id, Attends id (pool.threads.filter (·.label.1 = id)) (s.traffic id)
          (s.process.pointAt id) := by
  have hpossible : (run twoDaysLater {} interwoven).isSome = true := by decide +kernel
  obtain ⟨s, hs⟩ := Option.isSome_iff_exists.mp hpossible
  exact ⟨s, hs, exists_pool hs⟩

/-- When no handler is at work, the tables are consistent, and the messages are those
that the handlers have acknowledged. -/
theorem settled_of_quiet (hrun : run env {} events = some s)
    (hquiet : ∀ id job handler, (s.traffic id).hand ≠ .request job handler) :
    Relational s.world.db ∧
      (∀ c ∈ s.world.db.channels,
        { user := c.ownerId, channel := c.id } ∈ s.world.db.channelMembers) ∧
      ∃ pool : HandlerPool,
        (∀ id, Attends id (pool.threads.filter (·.label.1 = id)) (s.traffic id)
          (s.process.pointAt id)) ∧
        ∀ c, ((s.world.db.messages.filter (·.channel = c)).map
            fun m => (some m.sender, m.content)).Perm
          ((pool.relabel Prod.snd).threads.filterMap (acknowledgedIn c)) := by
  obtain ⟨pool, hpool⟩ := attended_run hrun
  have hreached : ReachedPool env (pool.relabel Prod.snd) := hpool.reached.relabel
  have hended : ∀ t ∈ (pool.relabel Prod.snd).threads, ∃ o, t.program = .done o := by
    intro t ht
    obtain ⟨u, hu, rfl⟩ := List.mem_map.mp ht
    exact hpool.ended hquiet u hu
  have hstore : (pool.relabel Prod.snd).store = s.world := hpool.store
  have hrelational := (pool_meets hreached).1
  have howners := owners_of_ended hreached hended
  have hentries := entries_of_ended hreached hended
  rw [hstore] at hrelational howners hentries
  exact ⟨hrelational, howners, pool, hpool.attends, hentries⟩

/-- No handler is at work when all threads are over. -/
theorem quiet_of_over (hrun : run env {} events = some s)
    (hover : ∀ t ∈ s.process.threads, t.conn.Over) (id : ℕ) (job : Job)
    (handler : Handler Message) : (s.traffic id).hand ≠ .request job handler := by
  intro hhand
  obtain ⟨pool, hpool⟩ := attended_run hrun
  have hpoint := hpool.pointAt_of_request hhand
  obtain ⟨t, ht, hat⟩ := Option.map_eq_some_iff.mp hpoint
  have hmem := (ServerProcess.mem_of_find ht).1
  rcases hover t hmem with hreturned | hstopped
  · rw [hat] at hreturned
    cases hreturned
  · rcases (((regular_run hrun).kept t hmem).of_stopped hstopped).2 with hloop | hreturned
    · rw [hat] at hloop
      cases hloop
    · rw [hat] at hreturned
      cases hreturned

/-- A client logs in, sends a message and goes away. -/
def visitor : List RunningEvent :=
  opening 0 masterLogin ++ List.replicate 5 (.called 0) ++ [.handled 0, .sent 0 1] ++
    [.process (.callback 0 .proceed), .process (.callback 0 (.shutdown 0)),
      .received 0 (note "a").wire, .decoded 0 1] ++ List.replicate 6 (.called 0) ++
    [.handled 0, .sent 0 1, .process (.callback 0 .proceed), .process (.callback 0 (.shutdown 0)),
      .process (.callback 0 (.sslRead 0))]

theorem settled_of_quiet_visitor : ∃ s, run twoDaysLater {} visitor = some s ∧
    Relational s.world.db ∧
      (∀ c ∈ s.world.db.channels,
        { user := c.ownerId, channel := c.id } ∈ s.world.db.channelMembers) ∧
      ∃ pool : HandlerPool,
        (∀ id, Attends id (pool.threads.filter (·.label.1 = id)) (s.traffic id)
          (s.process.pointAt id)) ∧
        ∀ c, ((s.world.db.messages.filter (·.channel = c)).map
            fun m => (some m.sender, m.content)).Perm
          ((pool.relabel Prod.snd).threads.filterMap (acknowledgedIn c)) := by
  have hpossible : (run twoDaysLater {} visitor).any fun s =>
      s.process.threads.all fun t => decide (t.conn.point = .returned) := by
    decide +kernel
  obtain ⟨s, hs, hreturned⟩ := (Option.any_eq_true _ _).mp hpossible
  have hover : ∀ t ∈ s.process.threads, t.conn.Over := fun t ht =>
    .inl (of_decide_eq_true (List.all_eq_true.mp hreturned t ht))
  exact ⟨s, hs, settled_of_quiet hs (quiet_of_over hs hover)⟩

/-- The database is left alone where no handler is at work. -/
theorem RunningStep.world_eq (h : s.RunningStep env s')
    (hquiet : ∀ id job handler, (s.traffic id).hand ≠ .request job handler) :
    s'.world = s.world := by
  cases h with
  | process _ _ | turn _ _ | decodes _ _ => rfl
  | calls hhand => exact absurd hhand (hquiet _ _ _)

/-- The process behind the loops of `main`. -/
theorem over_of_done {p : ServerProcess} {steps : List ServerEvent}
    (h : s.process.ShuttingDown ∧ s.process.main = .done) (hrun : s.process.run steps = some p) :
    p.ShuttingDown ∧ p.main = .done :=
  Machine.run_invariant (I := fun p => p.ShuttingDown ∧ p.main = .done)
    (fun _ _ _ hp hstep => ⟨hp.1.step (ServerProcess.step_cases hstep),
      (hp.1.step_of_done hp.2 (ServerProcess.step_cases hstep)).1⟩) h hrun

/-- The process is shutting down, if no thread was in its initial state when it was
interrupted. -/
theorem shuttingDown_run (hrun : run env {} (before ++ .process .interrupt :: events) = some s)
    (hbegun : ∀ s, run env {} before = some s → ∀ t ∈ s.process.threads,
      t.conn.state ≠ .waiting) : s.process.ShuttingDown := by
  obtain ⟨t, hbefore, hrest⟩ := Machine.run_append_eq_some.mp hrun
  obtain ⟨u, hstep, hevents⟩ := Machine.run_cons_eq_some.mp hrest
  obtain ⟨steps, hsteps⟩ := process_run hevents
  have hregular := regular_run hbefore
  simp only [step, ServerEvent.Dataless] at hstep
  obtain ⟨p, hp, hu⟩ := Option.bind_eq_some_iff.mp hstep
  cases hu
  cases ServerProcess.step_cases hp with
  | interrupt hmain =>
    exact (ServerProcess.shuttingDown_interrupt hregular hmain (hbegun t hbefore)).run hsteps

/-- Once `main` is through, no handler is at work and the database does not change. -/
theorem shutdown_settled (hrun : run env {} (before ++ .process .interrupt :: events) = some s)
    (hbegun : ∀ s, run env {} before = some s → ∀ t ∈ s.process.threads, t.conn.state ≠ .waiting)
    (hdone : s.process.main = .done) (hmore : run env s more = some s') :
    s'.world = s.world ∧ ∀ id job handler, (s'.traffic id).hand ≠ .request job handler := by
  have hshut := shuttingDown_run hrun hbegun
  have hquiet : ∀ {more : List RunningEvent} {t : RunningServer}, run env s more = some t →
      ∀ id job handler, (t.traffic id).hand ≠ .request job handler := by
    intro more t ht
    obtain ⟨steps, hsteps⟩ := process_run ht
    obtain ⟨hend, hmain⟩ := over_of_done ⟨hshut, hdone⟩ hsteps
    refine quiet_of_over (Machine.run_append_eq_some.mpr ⟨_, hrun, ht⟩) fun u hu => ?_
    exact hend.ended u hu (by rw [hmain]; trivial)
  refine ⟨?_, hquiet hmore⟩
  refine Machine.run_history (H := fun _ t => t.world = s.world) rfl ?_ hmore
  intro before t e t' hbefore hworld hstep
  rw [← hworld]
  exact (step_cases hstep).world_eq (hquiet hbefore)

/-- `main` waits for the login that is handled when it is interrupted. -/
def lastLogin : List RunningEvent :=
  [.process .main, .process .main] ++ List.replicate 5 (.called 0) ++ [.handled 0, .sent 0 1] ++
    List.replicate 3 (.process .main) ++ List.replicate 4 (.process (.callback 0 .proceed)) ++
    List.replicate 3 (.process .main)

theorem shutdown_settled_lastLogin : ∃ s s',
    run twoDaysLater {} (opening 0 masterLogin ++ .process .interrupt :: lastLogin) = some s ∧
      run twoDaysLater s [.process (.cleanup 0)] = some s' ∧ s'.world = s.world ∧
      ∀ id job handler, (s'.traffic id).hand ≠ .request job handler := by
  have hpossible : (run twoDaysLater {} (opening 0 masterLogin ++ .process .interrupt ::
      lastLogin)).any fun s => s.process.main = .done ∧
        (run twoDaysLater s [.process (.cleanup 0)]).isSome := by
    decide +kernel
  obtain ⟨s, hs, hend⟩ := (Option.any_eq_true _ _).mp hpossible
  obtain ⟨hdone, hmore⟩ := of_decide_eq_true hend
  obtain ⟨s', hs'⟩ := Option.isSome_iff_exists.mp hmore
  refine ⟨s, s', hs, hs', shutdown_settled hs ?_ hdone hs'⟩
  have hbegun : (run twoDaysLater {} (opening 0 masterLogin)).all fun s =>
      s.process.threads.all fun t => decide (t.conn.state ≠ .waiting) := by
    decide +kernel
  intro u hu t ht
  rw [hu] at hbegun
  exact of_decide_eq_true (List.all_eq_true.mp hbegun t ht)

end RunningServer
end Dotchat
