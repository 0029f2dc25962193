import Dotchat.Library.Table
import Dotchat.ThreadStart

/-!
The threads of the server, from the moment at which `main` enlists a connection
to its two loops that shut the server down. The cleaner, the threads and `main`
take turns in any order, in which a thread may be faster than the constructor that
has started it. `main` goes through the list without the lock that `enlist` and
`cleanup` hold.
-/
namespace Dotchat

/-- A `thread_conn` of the list, with its `id`. -/
structure Listed where
  id : ℕ
  conn : ThreadConn
  deriving DecidableEq

/-- What `main` does next. In the loops it has an iterator, which is an id or the
end of the list. -/
inductive MainPoint
  | accept
  /-- it is in `enlist`: the constructor of the thread has started `callback` -/
  | enlisting (id : ℕ)
  | requestStop (it : Option ℕ)
  | nextRequest (it : ℕ)
  | stopSync (it : Option ℕ)
  | waitFor (it : ℕ)
  | join (it : ℕ)
  | nextSync (it : ℕ)
  | done
  /-- it has used an iterator to a thread that is gone -/
  | lost
  deriving DecidableEq

/-- `enlist` holds the lock. -/
def MainPoint.locks : MainPoint → Bool
  | .enlisting _ => true
  | .accept | .requestStop _ | .nextRequest _ | .stopSync _ | .waitFor _ | .join _ | .nextSync _
  | .done | .lost => false

/-- The list holds a thread from the moment at which its memory is there: as long as it
is constructed, nobody goes through the list. -/
structure ServerProcess where
  threads : List Listed := []
  /-- `thread_id_next` -/
  nextId : ℕ := 0
  main : MainPoint := .accept
  deriving DecidableEq

/-- A connection is accepted and its thread started, the flag is set by a signal,
accepting throws, `main` goes on in `enlist` or in its loops, `callback` of a thread
goes on, or `actual_cleanup` drops a thread. -/
inductive ServerEvent
  | enlist
  | interrupt
  | acceptThrows
  | main
  | callback (id : ℕ) (e : CallbackEvent)
  | cleanup (id : ℕ)
  deriving DecidableEq

namespace ServerProcess

variable (p : ServerProcess)

def find (id : ℕ) : Option Listed := Table.lookup (·.id) id p.threads

def first : Option ℕ := p.threads.head?.map (·.id)

/-- The iterator behind this one. -/
def successor (id : ℕ) : Option ℕ :=
  (p.threads.dropWhile (·.id ≠ id)).tail.head?.map (·.id)

def setConn (id : ℕ) (c : ThreadConn) : ServerProcess :=
  { p with threads := Table.update (·.id) { id := id, conn := c } p.threads }

/-- An access through an iterator. -/
def access (it : ℕ) (f : ThreadConn → Option ServerProcess) : Option ServerProcess :=
  match p.find it with
  | some t => f t.conn
  | none => some { p with main := .lost }

/-- The step of `main`: in `enlist` the constructor initialises the state, in the loops
`join` waits for the end of `callback`. -/
def mainStep : Option ServerProcess :=
  match p.main with
  | .enlisting id => do
      let t ← p.find id
      pure { p.setConn id t.conn.initState with main := .accept }
  | .requestStop none => some { p with main := .stopSync p.first }
  | .requestStop (some it) =>
      p.access it fun c => some { p.setConn it c.requestStop with main := .nextRequest it }
  | .nextRequest it => p.access it fun _ => some { p with main := .requestStop (p.successor it) }
  | .stopSync none => some { p with main := .done }
  | .stopSync (some it) =>
      p.access it fun c => some { p.setConn it c.requestStop with main := .waitFor it }
  | .waitFor it =>
      p.access it fun c => some { p with main := if c.isRunning then .join it else .nextSync it }
  | .join it =>
      p.access it fun c =>
        if c.point = .returned then some { p with main := .nextSync it } else none
  | .nextSync it => p.access it fun _ => some { p with main := .stopSync (p.successor it) }
  | .accept | .done | .lost => none

/-- No step of `callback` reads the state of a new thread before one has set it. -/
def step : ServerEvent → Option ServerProcess
  | .enlist =>
      if p.main = .accept then
        some { p with
          threads := p.threads ++ [{ id := p.nextId, conn := {} }], nextId := p.nextId + 1
          main := .enlisting p.nextId }
      else none
  | .interrupt => if p.main = .accept then some { p with main := .requestStop p.first } else none
  | .acceptThrows => if p.main = .accept then some { p with main := .done } else none
  | .main => p.mainStep
  | .callback id e =>
      if e = .requestStop then none
      else do
        let t ← p.find id
        let c ← t.conn.step e
        pure (p.setConn id c)
  | .cleanup id =>
      if p.main.locks then none
      else do
        let t ← p.find id
        if t.conn.isStopped then
          pure { p with threads := p.threads.filter (·.id ≠ id) }
        else none

end ServerProcess

/-- Where the iterator of `main` points to. -/
def MainPoint.iterator : MainPoint → Option ℕ
  | .requestStop it | .stopSync it => it
  | .nextRequest it | .waitFor it | .join it | .nextSync it => some it
  | .accept | .enlisting _ | .done | .lost => none

/-- `main` is in the loop that accepts connections. -/
def MainPoint.Accepting : MainPoint → Prop
  | .accept | .enlisting _ => True
  | .requestStop _ | .nextRequest _ | .stopSync _ | .waitFor _ | .join _ | .nextSync _ | .done
  | .lost => False

instance (m : MainPoint) : Decidable m.Accepting := by
  unfold MainPoint.Accepting
  split <;> infer_instance

/-- Steps of `main` that change nothing else. -/
inductive MainMove (p : ServerProcess) : MainPoint → Prop
  | allRequested (h : p.main = .requestStop none) : MainMove p (.stopSync p.first)
  | nextRequest {it : ℕ} {t : Listed} (h : p.main = .nextRequest it) (ht : p.find it = some t) :
      MainMove p (.requestStop (p.successor it))
  | allSynced (h : p.main = .stopSync none) : MainMove p .done
  | awaits {it : ℕ} {t : Listed} (h : p.main = .waitFor it) (ht : p.find it = some t) :
      MainMove p (.join it)
  | skips {it : ℕ} {t : Listed} (h : p.main = .waitFor it) (ht : p.find it = some t)
      (hidle : ¬ t.conn.isRunning) : MainMove p (.nextSync it)
  | joins {it : ℕ} {t : Listed} (h : p.main = .join it) (ht : p.find it = some t)
      (hreturned : t.conn.point = .returned) : MainMove p (.nextSync it)
  | nextSync {it : ℕ} {t : Listed} (h : p.main = .nextSync it) (ht : p.find it = some t) :
      MainMove p (.stopSync (p.successor it))
  | gone {it : ℕ} (h : p.main.iterator = some it) (ht : p.find it = none) : MainMove p .lost

theorem MainMove.shutsDown {p : ServerProcess} {m : MainPoint} (h : MainMove p m) :
    ¬ (p.main.Accepting ∨ p.main = .done) := by
  cases h with
  | gone hit _ =>
    cases hmain : p.main <;> simp [hmain, MainPoint.iterator, MainPoint.Accepting] at hit ⊢
  | allRequested hmain | nextRequest hmain _ | allSynced hmain | awaits hmain _ | skips hmain _ _
  | joins hmain _ _ | nextSync hmain _ => simp [hmain, MainPoint.Accepting]

/-- `main` ends behind its second loop. -/
theorem MainMove.done_iff {p : ServerProcess} {m : MainPoint} (h : MainMove p m) :
    m = .done ↔ p.main = .stopSync none := by
  cases h with
  | allSynced hmain => exact iff_of_true rfl hmain
  | gone hit _ =>
    refine iff_of_false (by simp) fun hmain => ?_
    simp [hmain, MainPoint.iterator] at hit
  | allRequested hmain | nextRequest hmain _ | awaits hmain _ | skips hmain _ _
  | joins hmain _ _ | nextSync hmain _ => simp [hmain]

/-- Behind the loop that accepts connections `main` does not come back to it. -/
theorem MainMove.left {p : ServerProcess} {m : MainPoint} (h : MainMove p m) : ¬ m.Accepting := by
  cases h <;> exact id

/-- What the steps of the server do. -/
inductive ServerStep (p : ServerProcess) : ServerEvent → ServerProcess → Prop
  | enlist (h : p.main = .accept) : ServerStep p .enlist
      { p with
        threads := p.threads ++ [{ id := p.nextId, conn := {} }], nextId := p.nextId + 1
        main := .enlisting p.nextId }
  | constructs {id : ℕ} {t : Listed} (h : p.main = .enlisting id) (ht : p.find id = some t) :
      ServerStep p .main { p.setConn id t.conn.initState with main := .accept }
  | interrupt (h : p.main = .accept) :
      ServerStep p .interrupt { p with main := .requestStop p.first }
  | acceptThrows (h : p.main = .accept) : ServerStep p .acceptThrows { p with main := .done }
  | moves {m : MainPoint} (h : MainMove p m) : ServerStep p .main { p with main := m }
  | requests {it : ℕ} {t : Listed} (h : p.main = .requestStop (some it)) (ht : p.find it = some t) :
      ServerStep p .main { p.setConn it t.conn.requestStop with main := .nextRequest it }
  | requestsAgain {it : ℕ} {t : Listed} (h : p.main = .stopSync (some it))
      (ht : p.find it = some t) :
      ServerStep p .main { p.setConn it t.conn.requestStop with main := .waitFor it }
  | callback {id : ℕ} {t : Listed} {e : CallbackEvent} {c : ThreadConn} (he : e ≠ .requestStop)
      (ht : p.find id = some t) (hc : t.conn.step e = some c) :
      ServerStep p (.callback id e) (p.setConn id c)
  | cleanup {id : ℕ} {t : Listed} (ht : p.find id = some t) (hstopped : t.conn.isStopped)
      (hfree : ¬ p.main.locks) :
      ServerStep p (.cleanup id) { p with threads := p.threads.filter (·.id ≠ id) }

/-- `main` never comes back to accepting connections. -/
theorem ServerStep.accepting {p p' : ServerProcess} {e : ServerEvent} (h : ServerStep p e p')
    (hmain : p'.main.Accepting) : p.main.Accepting ∧ e ≠ .interrupt ∧ e ≠ .acceptThrows := by
  cases h with
  | enlist haccept | constructs haccept _ =>
    rw [haccept]
    exact ⟨trivial, by simp, by simp⟩
  | callback _ _ _ | cleanup _ _ _ => exact ⟨hmain, by simp, by simp⟩
  | interrupt _ | acceptThrows _ | requests _ _ | requestsAgain _ _ => exact hmain.elim
  | moves hmove => exact absurd hmain hmove.left

theorem ServerStep.left {p p' : ServerProcess} {e : ServerEvent} (h : ServerStep p e p')
    (hleft : ¬ p.main.Accepting) : ¬ p'.main.Accepting := fun hmain => hleft (h.accepting hmain).1

namespace ServerProcess

section Steps

variable {p p' : ServerProcess} {e : ServerEvent} {it : ℕ}

theorem access_cases {f : ThreadConn → Option ServerProcess} (h : p.access it f = some p') :
    (p.find it = none ∧ p' = { p with main := .lost }) ∨
      ∃ t, p.find it = some t ∧ f t.conn = some p' := by
  unfold access at h
  cases ht : p.find it with
  | none =>
    rw [ht] at h
    exact .inl ⟨rfl, (Option.some.inj h).symm⟩
  | some t =>
    rw [ht] at h
    exact .inr ⟨t, rfl, h⟩

theorem mainStep_cases (h : p.mainStep = some p') : ServerStep p .main p' := by
  unfold mainStep at h
  cases hmain : p.main with
  | accept | done | lost =>
    rw [hmain] at h
    cases h
  | enlisting id =>
    rw [hmain] at h
    obtain ⟨t, ht, h⟩ := Option.bind_eq_some_iff.mp h
    cases h
    exact .constructs hmain ht
  | requestStop it =>
    rw [hmain] at h
    cases it with
    | none =>
      cases h
      exact .moves (.allRequested hmain)
    | some it =>
      rcases access_cases h with ⟨hnone, rfl⟩ | ⟨t, ht, hf⟩
      · exact .moves (.gone (by rw [hmain]; rfl) hnone)
      · cases hf
        exact .requests hmain ht
  | stopSync it =>
    rw [hmain] at h
    cases it with
    | none =>
      cases h
      exact .moves (.allSynced hmain)
    | some it =>
      rcases access_cases h with ⟨hnone, rfl⟩ | ⟨t, ht, hf⟩
      · exact .moves (.gone (by rw [hmain]; rfl) hnone)
      · cases hf
        exact .requestsAgain hmain ht
  | nextRequest it =>
    rw [hmain] at h
    rcases access_cases h with ⟨hnone, rfl⟩ | ⟨t, ht, hf⟩
    · exact .moves (.gone (by rw [hmain]; rfl) hnone)
    · cases hf
      exact .moves (.nextRequest hmain ht)
  | waitFor it =>
    rw [hmain] at h
    rcases access_cases h with ⟨hnone, rfl⟩ | ⟨t, ht, hf⟩
    · exact .moves (.gone (by rw [hmain]; rfl) hnone)
    · cases hf
      by_cases hrunning : t.conn.isRunning
      · rw [if_pos hrunning]
        exact .moves (.awaits hmain ht)
      · rw [if_neg hrunning]
        exact .moves (.skips hmain ht hrunning)
  | join it =>
    rw [hmain] at h
    rcases access_cases h with ⟨hnone, rfl⟩ | ⟨t, ht, hf⟩
    · exact .moves (.gone (by rw [hmain]; rfl) hnone)
    · by_cases hreturned : t.conn.point = .returned
      · rw [if_pos hreturned] at hf
        cases hf
        exact .moves (.joins hmain ht hreturned)
      · rw [if_neg hreturned] at hf
        cases hf
  | nextSync it =>
    rw [hmain] at h
    rcases access_cases h with ⟨hnone, rfl⟩ | ⟨t, ht, hf⟩
    · exact .moves (.gone (by rw [hmain]; rfl) hnone)
    · cases hf
      exact .moves (.nextSync hmain ht)

theorem step_cases (h : p.step e = some p') : ServerStep p e p' := by
  cases e with
  | enlist =>
    simp only [step] at h
    split at h
    · rename_i hmain
      cases h
      exact .enlist hmain
    · cases h
  | interrupt =>
    simp only [step] at h
    split at h
    · rename_i hmain
      cases h
      exact .interrupt hmain
    · cases h
  | acceptThrows =>
    simp only [step] at h
    split at h
    · rename_i hmain
      cases h
      exact .acceptThrows hmain
    · cases h
  | main => exact mainStep_cases h
  | callback id e =>
    simp only [step] at h
    split at h
    · cases h
    · rename_i he
      obtain ⟨t, ht, h⟩ := Option.bind_eq_some_iff.mp h
      obtain ⟨c, hc, h⟩ := Option.bind_eq_some_iff.mp h
      cases h
      exact .callback he ht hc
  | cleanup id =>
    simp only [step] at h
    split at h
    · cases h
    · rename_i hfree
      obtain ⟨t, ht, h⟩ := Option.bind_eq_some_iff.mp h
      split at h
      · rename_i hstopped
        cases h
        exact .cleanup ht hstopped hfree
      · cases h

end Steps

/-- The threads are listed in the order in which they were enlisted. -/
structure Numbered (p : ServerProcess) : Prop where
  sorted : (p.threads.map (·.id)).Pairwise (· < ·)
  lt : ∀ t ∈ p.threads, t.id < p.nextId

/-- What holds at all times: of all threads, and of them as long as `main` accepts
connections. -/
structure Regular (p : ServerProcess) : Prop where
  numbered : p.Numbered
  kept : ∀ t ∈ p.threads, t.conn.Kept
  unasked : p.main.Accepting → ∀ t ∈ p.threads, t.conn.Unasked

section Threads

variable {p p' : ServerProcess} {e : ServerEvent} {id : ℕ} {t : Listed} {c : ThreadConn}

theorem Numbered.keyed (h : p.Numbered) : Table.Keyed (·.id) p.threads :=
  h.sorted.imp Nat.ne_of_lt

theorem mem_of_find (h : p.find id = some t) : t ∈ p.threads ∧ t.id = id := Table.mem_of_lookup h

theorem Numbered.find_eq_some (h : p.Numbered) :
    p.find id = some t ↔ t ∈ p.threads ∧ t.id = id := Table.lookup_eq_some h.keyed

theorem find_eq_none : p.find id = none ↔ ∀ t ∈ p.threads, t.id ≠ id := Table.lookup_eq_none

theorem mem_setConn (h : t ∈ (p.setConn id c).threads) :
    t = { id := id, conn := c } ∨ (t ∈ p.threads ∧ t.id ≠ id) := Table.mem_update h

theorem ids_setConn : (p.setConn id c).threads.map (·.id) = p.threads.map (·.id) :=
  Table.map_key_update

theorem Numbered.of_ids (h : p.Numbered)
    (hids : (p'.threads.map (·.id)).Sublist (p.threads.map (·.id))) (hnext : p'.nextId = p.nextId) :
    p'.Numbered := by
  refine ⟨h.sorted.sublist hids, ?_⟩
  intro t ht
  obtain ⟨t', ht', hid⟩ := List.mem_map.mp (hids.mem (List.mem_map_of_mem ht))
  rw [hnext, ← hid]
  exact h.lt t' ht'

theorem Numbered.step (h : p.Numbered) (hstep : ServerStep p e p') : p'.Numbered := by
  have hset (id : ℕ) (c : ThreadConn) : ((p.setConn id c).threads.map (·.id)).Sublist
      (p.threads.map (·.id)) := by rw [ids_setConn]
  cases hstep with
  | enlist _ =>
    constructor
    · rw [List.map_append, List.pairwise_append]
      refine ⟨h.sorted, List.pairwise_singleton _ _, ?_⟩
      intro i hi j hj
      obtain ⟨t, ht, rfl⟩ := List.mem_map.mp hi
      obtain rfl := List.mem_singleton.mp hj
      exact h.lt t ht
    · intro t ht
      rcases List.mem_append.mp ht with ht | ht
      · exact Nat.lt_succ_of_lt (h.lt t ht)
      · obtain rfl := List.mem_singleton.mp ht
        exact Nat.lt_succ_self _
  | interrupt _ | acceptThrows _ | moves _ => exact ⟨h.sorted, h.lt⟩
  | constructs _ _ | requests _ _ | requestsAgain _ _ | callback _ _ _ =>
    exact h.of_ids (hset _ _) rfl
  | cleanup _ _ _ => exact h.of_ids (List.filter_sublist.map _) rfl

/-- What a thread keeps in each of its steps, and when it is constructed, all threads
keep. -/
theorem conns_step {I : ThreadConn → Prop} (hstart : I {})
    (hkeep : ∀ c e c', I c → c.step e = some c' → I c')
    (hinit : p.main.Accepting → ∀ t ∈ p.threads, I t.conn.initState)
    (hall : ∀ t ∈ p.threads, I t.conn) (hstep : ServerStep p e p') :
    ∀ t ∈ p'.threads, I t.conn := by
  have hset {id : ℕ} {t : Listed} {e : CallbackEvent} {c : ThreadConn} (ht : p.find id = some t)
      (hc : t.conn.step e = some c) : ∀ t ∈ (p.setConn id c).threads, I t.conn := by
    intro t' ht'
    rcases mem_setConn ht' with rfl | ⟨hmem, -⟩
    · exact hkeep _ _ _ (hall t (mem_of_find ht).1) hc
    · exact hall t' hmem
  cases hstep with
  | enlist _ =>
    intro t ht
    rcases List.mem_append.mp ht with ht | ht
    · exact hall t ht
    · obtain rfl := List.mem_singleton.mp ht
      exact hstart
  | constructs hmain ht =>
    intro t' ht'
    rcases mem_setConn ht' with rfl | ⟨hmem, -⟩
    · exact hinit (by rw [hmain]; trivial) _ (mem_of_find ht).1
    · exact hall t' hmem
  | interrupt _ | acceptThrows _ | moves _ => exact hall
  | requests _ ht | requestsAgain _ ht => exact hset (e := .requestStop) ht rfl
  | callback _ ht hc => exact hset ht hc
  | cleanup _ _ _ => exact fun t ht => hall t (List.mem_of_mem_filter ht)

/-- Nobody asks a thread to stop before the loops of `main`. -/
theorem unasked_conns (hmain : p.main.Accepting ∨ p.main = .done)
    (hall : ∀ t ∈ p.threads, t.conn.Unasked) (hstep : ServerStep p e p') :
    ∀ t ∈ p'.threads, t.conn.Unasked := by
  intro t ht
  cases hstep with
  | enlist _ =>
    rcases List.mem_append.mp ht with ht | ht
    · exact hall t ht
    · obtain rfl := List.mem_singleton.mp ht
      exact ThreadConn.unasked_start
  | constructs _ hfind =>
    rcases mem_setConn ht with rfl | ⟨hmem, -⟩
    · exact ThreadConn.unasked_initState (hall _ (mem_of_find hfind).1)
    · exact hall t hmem
  | interrupt _ | acceptThrows _ => exact hall t ht
  | moves hmove => exact absurd hmain hmove.shutsDown
  | requests hat _ | requestsAgain hat _ => simp [hat, MainPoint.Accepting] at hmain
  | callback hown hfind hc =>
    rcases mem_setConn ht with rfl | ⟨hmem, -⟩
    · exact ThreadConn.unasked_step (hall _ (mem_of_find hfind).1) hown hc
    · exact hall t hmem
  | cleanup _ _ _ => exact hall t (List.mem_of_mem_filter ht)

theorem Regular.step (h : p.Regular) (hstep : ServerStep p e p') : p'.Regular where
  numbered := h.numbered.step hstep
  kept := conns_step ThreadConn.kept_start (fun _ _ _ => ThreadConn.kept_step)
    (fun hmain t ht => ThreadConn.kept_initState (h.kept t ht) (h.unasked hmain t ht)) h.kept hstep
  unasked hmain := by
    have haccepting := (hstep.accepting hmain).1
    exact unasked_conns (.inl haccepting) (h.unasked haccepting) hstep

theorem regular_start : Regular {} := ⟨⟨List.Pairwise.nil, by simp⟩, by simp, by simp⟩

variable {events : List ServerEvent}

/-- The server after the events, if each is possible where it happens. -/
abbrev run (p : ServerProcess) (events : List ServerEvent) : Option ServerProcess :=
  Machine.run step p events

theorem Regular.run (h : p.Regular) (hrun : p.run events = some p') : p'.Regular :=
  Machine.run_invariant (fun _ _ _ hp hstep => Regular.step hp (step_cases hstep)) h hrun

end Threads

section Cleanup

variable {p p' : ServerProcess} {e : ServerEvent} {id : ℕ} {events : List ServerEvent}

/-- One pass of `actual_cleanup` drops the stopped threads one after the other. -/
theorem run_cleanups (hp : p.Numbered) (hfree : ¬ p.main.locks) {stopped : List Listed}
    (hmem : ∀ t ∈ stopped, t ∈ p.threads ∧ t.conn.isStopped)
    (hids : (stopped.map (·.id)).Nodup) :
    p.run (stopped.map fun t => .cleanup t.id) =
      some { p with threads := p.threads.filter (·.id ∉ stopped.map (·.id)) } := by
  induction stopped generalizing p with
  | nil => simp [Machine.run]
  | cons t stopped ih =>
    obtain ⟨hfresh, hids⟩ := List.nodup_cons.mp hids
    obtain ⟨⟨ht, hstopped⟩, hmem⟩ := List.forall_mem_cons.mp hmem
    have hfind : p.find t.id = some t := hp.find_eq_some.mpr ⟨ht, rfl⟩
    have hstep : p.step (.cleanup t.id) =
        some { p with threads := p.threads.filter (·.id ≠ t.id) } := by
      simp [step, hfree, hfind, hstopped]
    have hrest := ih (hp.step (step_cases hstep)) hfree (fun t' ht' => by
      obtain ⟨hin, hstopped'⟩ := hmem t' ht'
      refine ⟨List.mem_filter.mpr ⟨hin, ?_⟩, hstopped'⟩
      have hne : t'.id ≠ t.id := fun heq => hfresh (List.mem_map.mpr ⟨t', ht', heq⟩)
      simpa using hne) hids
    rw [List.map_cons, run, Machine.run, hstep, Option.bind_some]
    refine hrest.trans ?_
    simp only [List.filter_filter, List.map_cons, List.mem_cons, not_or]
    congr 2
    exact List.filter_congr fun t' _ => by simp [Bool.and_comm]

theorem cleanup_pass (hp : p.Numbered) (hfree : ¬ p.main.locks) :
    ∃ p', p.run ((p.threads.filter (·.conn.isStopped)).map fun t => .cleanup t.id) = some p' ∧
      p'.threads.map (·.conn) = ThreadConn.actualCleanup (p.threads.map (·.conn)) := by
  refine ⟨_, run_cleanups hp hfree (fun t ht => ?_) ?_, ?_⟩
  · obtain ⟨hin, hstopped⟩ := List.mem_filter.mp ht
    exact ⟨hin, by simpa using hstopped⟩
  · exact (List.filter_sublist.map _).nodup hp.keyed
  · rw [ThreadConn.actualCleanup, List.filter_map]
    refine congrArg (List.map _) (List.filter_congr ?_)
    intro t ht
    have hsame : t.id ∈ (p.threads.filter (·.conn.isStopped)).map (·.id) ↔ t.conn.isStopped := by
      constructor
      · intro hmem
        obtain ⟨t', ht', hid⟩ := List.mem_map.mp hmem
        obtain ⟨hin, hstopped⟩ := List.mem_filter.mp ht'
        rw [Table.eq_of_key hp.keyed hin ht hid] at hstopped
        simpa using hstopped
      · intro hstopped
        exact List.mem_map_of_mem (List.mem_filter.mpr ⟨ht, by simpa using hstopped⟩)
    simp [hsame]

/-- Whoever joins the thread of a final state waits for one test of the loop. -/
theorem left_of_stopped {c c' : ThreadConn} {left : List CallbackEvent} (h : c.Fit)
    (hstopped : c.isStopped) (hrun : c.run left = some c') :
    ThreadConn.own left = [] ∨ c.point = .testLoop ∧ ThreadConn.own left = [.proceed] := by
  induction left generalizing c with
  | nil => exact .inl rfl
  | cons e left ih =>
    obtain ⟨d, hstep, hrest⟩ := Machine.run_cons_eq_some.mp hrun
    obtain ⟨hssl, hpoint⟩ := h.of_stopped hstopped
    by_cases he : e = .requestStop
    · subst he
      cases hstep
      rw [ThreadConn.requestStop_of_stopped hstopped] at hrest
      simpa [ThreadConn.own] using ih h hstopped hrest
    · have hnext := (ThreadConn.advances he hstep).point
      have hstate := (ThreadConn.advances he hstep).state
      rcases hpoint with hpoint | hpoint
      · have hproceed : e = .proceed := by
          cases e <;> simp [ThreadConn.step, hpoint, hssl] at hstep ⊢
          exact he rfl
        have hreturned := (ThreadConn.advances he hstep).leaves hpoint hssl
        have hstopped' : d.isStopped := by
          simpa [ThreadConn.isStopped, hstate, ThreadConn.stateNext, hpoint] using hstopped
        rcases ih (ThreadConn.fit_step h hstep) hstopped' hrest with hnil | ⟨hat, -⟩
        · exact .inr ⟨hpoint, by simpa [ThreadConn.own, hproceed] using hnil⟩
        · rw [hreturned] at hat
          cases hat
      · rw [hpoint] at hnext
        cases hnext

/-- A thread that `cleanup` drops has closed its connection, and nothing is left
of its `callback` but the last test of the loop. -/
theorem cleanup_closed (hrun : run {} events = some p) (hstep : p.step (.cleanup id) = some p') :
    ∃ t, p.find id = some t ∧ t.conn.ssl = false ∧ ∀ left c, t.conn.run left = some c →
      ThreadConn.own left = [] ∨ ThreadConn.own left = [.proceed] := by
  have hregular := regular_start.run hrun
  cases step_cases hstep with
  | cleanup ht hstopped =>
    have hfit := ((hregular.kept _ (mem_of_find ht).1).begun_of_asked (.inr hstopped)).1
    refine ⟨_, ht, (hfit.of_stopped hstopped).1, ?_⟩
    intro left c hleft
    exact (left_of_stopped hfit hstopped hleft).imp_right And.right

/-- The server is interrupted while it waits for a request; the thread handles the
request and stops. -/
def stopping : List ServerEvent :=
  [.enlist, .main, .callback 0 .proceed, .callback 0 (.shutdown 0), .interrupt, .main,
    .callback 0 (.sslRead 7), .callback 0 (.handled none), .callback 0 (.sent none),
    .callback 0 .proceed, .callback 0 .proceed, .callback 0 .proceed]

def stopped : ServerProcess where
  threads := [{ id := 0, conn := { state := .stopped, ssl := false, point := .testLoop } }]
  nextId := 1
  main := .nextRequest 0

theorem stopping_run : run {} stopping = some stopped := by decide

theorem cleanup_closed_stopped :
    ∃ t, stopped.find 0 = some t ∧ t.conn.ssl = false ∧ ∀ left c, t.conn.run left = some c →
      ThreadConn.own left = [] ∨ ThreadConn.own left = [.proceed] :=
  cleanup_closed stopping_run (by decide : stopped.step (.cleanup 0) =
    some { stopped with threads := [] })

end Cleanup

section Accepting

variable {p p' : ServerProcess} {e : ServerEvent} {events : List ServerEvent}

theorem nextId_run (hrun : run {} events = some p) : p.nextId = events.count .enlist := by
  refine Machine.run_history (H := fun events p => p.nextId = events.count .enlist) rfl ?_ hrun
  intro before t e t' _ ht hstep
  rw [List.count_append, ← ht]
  cases step_cases hstep with
  | enlist _ => rfl
  | _ => rfl

/-- No thread has been asked to stop, and none is missing. -/
structure Unstopped (p : ServerProcess) : Prop where
  main : p.main.Accepting ∨ p.main = .done
  unasked : ∀ t ∈ p.threads, t.conn.Unasked
  ids : p.threads.map (·.id) = List.range p.nextId

theorem Unstopped.step (h : p.Unstopped) (he : e ≠ .interrupt) (hstep : ServerStep p e p') :
    p'.Unstopped := by
  have hunasked := unasked_conns h.main h.unasked hstep
  cases hstep with
  | enlist hmain =>
    refine ⟨.inl trivial, hunasked, ?_⟩
    rw [List.map_append, h.ids, List.range_succ]
    rfl
  | constructs hmain _ => exact ⟨.inl trivial, hunasked, ids_setConn.trans h.ids⟩
  | interrupt _ => exact absurd rfl he
  | acceptThrows _ => exact ⟨.inr rfl, hunasked, h.ids⟩
  | moves hmove => exact absurd h.main hmove.shutsDown
  | requests hmain _ | requestsAgain hmain _ =>
    rcases h.main with hat | hat <;> simp [hmain, MainPoint.Accepting] at hat
  | callback _ _ _ => exact ⟨h.main, hunasked, ids_setConn.trans h.ids⟩
  | cleanup ht hstopped =>
    exact absurd hstopped (h.unasked _ (mem_of_find ht).1).not_stopped

theorem unstopped_run (hrun : run {} events = some p) (h : .interrupt ∉ events) : p.Unstopped := by
  have hstart : Unstopped {} := ⟨.inl trivial, by simp, rfl⟩
  exact Machine.run_keeps (P := (· ≠ .interrupt))
    (fun _ _ _ hp he hstep => Unstopped.step hp he (step_cases hstep)) hstart
    (fun _ he hint => h (by rwa [hint] at he)) hrun

/-- Until it is interrupted, the server keeps the thread of every connection that
it has ever accepted. -/
theorem enlisted_stay (hrun : run {} events = some p) (h : .interrupt ∉ events) :
    p.threads.map (·.id) = List.range (events.count .enlist) := by
  rw [← nextId_run hrun]
  exact (unstopped_run hrun h).ids

/-- A client connects, sends a request, gets its reply and disconnects. -/
def visit : List ServerEvent :=
  .enlist :: .main :: ThreadConn.disconnecting.map fun e => .callback 0 e

def visited : ServerProcess where
  threads := [{ id := 0, conn := { state := .running, ssl := true, point := .returned } }]
  nextId := 1

theorem enlisted_stay_visit :
    visited.threads.map (·.id) = List.range (visit.count .enlist) :=
  enlisted_stay (by decide : run {} visit = some visited) (by decide)

end Accepting

end ServerProcess
end Dotchat
