import Dotchat.ThreadManager

/-!
The two loops with which `main` shuts the server down. Once a thread has been
asked to stop it handles at most one more request, and none after `main` is
through, if no thread was in its initial state when it was interrupted: a thread that
has not begun, or whose state the constructor has overwritten, is not waited for.
`main` goes wrong only when the cleaner drops the thread that its iterator points to.
-/
namespace Dotchat

/-- The iterator is behind the thread. -/
def Passed : Option ℕ → ℕ → Prop
  | none, _ => True
  | some it, id => id < it

namespace MainPoint

/-- The first loop has asked the thread to stop. -/
def Requested : MainPoint → ℕ → Prop
  | .requestStop it, id => Passed it id
  | .nextRequest it, id => id ≤ it
  | .stopSync _, _ | .waitFor _, _ | .join _, _ | .nextSync _, _ | .done, _ => True
  | .accept, _ | .enlisting _, _ | .lost, _ => False

/-- The second loop has waited for the thread. -/
def Synced : MainPoint → ℕ → Prop
  | .stopSync it, id => Passed it id
  | .waitFor it, id | .join it, id => id < it
  | .nextSync it, id => id ≤ it
  | .done, _ => True
  | .accept, _ | .enlisting _, _ | .requestStop _, _ | .nextRequest _, _ | .lost, _ => False

end MainPoint

namespace ServerProcess

section Iterators

variable {p : ServerProcess} {it : ℕ} {t u : Listed}

theorem not_passed_first (h : p.Numbered) (ht : t ∈ p.threads) : ¬ Passed p.first t.id := by
  have hsorted := h.sorted
  unfold first
  generalize p.threads = threads at ht hsorted
  cases threads with
  | nil => cases ht
  | cons head rest =>
    have hlt := (List.pairwise_cons.mp hsorted).1
    rcases List.mem_cons.mp ht with rfl | ht
    · exact Nat.lt_irrefl _
    · exact Nat.not_lt.mpr (Nat.le_of_lt (hlt _ (List.mem_map_of_mem ht)))

/-- The threads around one of them. -/
theorem exists_around (h : p.Numbered) (hfind : p.find it = some u) :
    ∃ front back, p.threads = front ++ u :: back ∧ p.successor it = back.head?.map (·.id) ∧
      (∀ t ∈ front, t.id < it) ∧ ((u :: back).map (·.id)).Pairwise (· < ·) := by
  obtain ⟨hu, rfl⟩ := mem_of_find hfind
  obtain ⟨front, back, hsplit⟩ := List.append_of_mem hu
  have hsorted := h.sorted
  rw [hsplit, List.map_append, List.pairwise_append] at hsorted
  obtain ⟨-, hback, hcross⟩ := hsorted
  have hfront : ∀ t ∈ front, t.id < u.id := fun t ht =>
    hcross _ (List.mem_map_of_mem ht) _ (List.mem_map_of_mem List.mem_cons_self)
  refine ⟨front, back, hsplit, ?_, hfront, hback⟩
  have hdrop : p.threads.dropWhile (·.id ≠ u.id) = u :: back := by
    rw [hsplit, List.dropWhile_append_of_pos]
    · simp
    · exact fun t ht => by simpa using Nat.ne_of_lt (hfront t ht)
  rw [successor, hdrop, List.tail_cons]

theorem passed_successor (h : p.Numbered) (hfind : p.find it = some u) (ht : t ∈ p.threads) :
    Passed (p.successor it) t.id ↔ t.id ≤ it := by
  obtain ⟨front, back, hsplit, hnext, hfront, hback⟩ := exists_around h hfind
  obtain ⟨-, rfl⟩ := mem_of_find hfind
  obtain ⟨hhead, hrest⟩ := List.pairwise_cons.mp hback
  rw [hnext]
  rw [hsplit, List.mem_append, List.mem_cons] at ht
  cases back with
  | nil =>
    refine iff_of_true trivial ?_
    rcases ht with ht | rfl | ht
    · exact Nat.le_of_lt (hfront t ht)
    · exact Nat.le_refl _
    · cases ht
  | cons v back =>
    have hv : u.id < v.id := hhead v.id (by simp)
    show t.id < v.id ↔ _
    rcases ht with ht | rfl | ht
    · have hlt : t.id < u.id := hfront t ht
      omega
    · omega
    · rcases List.mem_cons.mp ht with rfl | ht
      · omega
      · have hlater : v.id < t.id := (List.pairwise_cons.mp hrest).1 t.id (List.mem_map_of_mem ht)
        omega

theorem first_mem {id : ℕ} (h : p.first = some id) : ∃ t ∈ p.threads, t.id = id := by
  obtain ⟨t, ht, hid⟩ := Option.map_eq_some_iff.mp h
  exact ⟨t, List.mem_of_mem_head? ht, hid⟩

theorem successor_mem {id : ℕ} (h : p.successor it = some id) : ∃ t ∈ p.threads, t.id = id := by
  obtain ⟨t, ht, hid⟩ := Option.map_eq_some_iff.mp h
  exact ⟨t, (List.dropWhile_sublist _).mem (List.mem_of_mem_tail (List.mem_of_mem_head? ht)), hid⟩

end Iterators

/-- The server between the interrupt and the end of `main`. -/
structure ShuttingDown (p : ServerProcess) : Prop where
  regular : p.Regular
  left : ¬ p.main.Accepting
  begun : ∀ t ∈ p.threads, t.conn.Begun
  asked : ∀ t ∈ p.threads, p.main.Requested t.id → t.conn.Asked
  ended : ∀ t ∈ p.threads, p.main.Synced t.id → t.conn.Over

section Steps

variable {p p' : ServerProcess} {e : ServerEvent} {m : MainPoint}

theorem ShuttingDown.move (h : p.ShuttingDown) (hmove : MainMove p m) :
    ShuttingDown { p with main := m } := by
  have hleft' := hmove.left
  obtain ⟨hregular, hleft, hbegun, hasked, hover⟩ := h
  have hregular' : Regular { p with main := m } := hregular.step (.moves hmove)
  have hsame {it : ℕ} {t u : Listed} (hu : p.find it = some u) (ht : t ∈ p.threads)
      (hle : t.id ≤ it) : t.id < it ∨ t = u := by
    obtain ⟨hmem, hid⟩ := mem_of_find hu
    rcases Nat.lt_or_eq_of_le hle with hlt | heq
    · exact .inl hlt
    · exact .inr (Table.eq_of_key hregular.numbered.keyed ht hmem (heq.trans hid.symm))
  cases hmove with
  | allRequested hmain =>
    rw [hmain] at hasked
    exact ⟨hregular', hleft', hbegun, fun t ht _ => hasked t ht trivial,
      fun t ht hpassed => absurd hpassed (not_passed_first hregular.numbered ht)⟩
  | nextRequest hmain hu =>
    rw [hmain] at hasked
    exact ⟨hregular', hleft', hbegun,
      fun t ht hpassed => hasked t ht ((passed_successor hregular.numbered hu ht).mp hpassed),
      fun _ _ hsynced => hsynced.elim⟩
  | allSynced hmain =>
    rw [hmain] at hasked hover
    exact ⟨hregular', hleft', hbegun, fun t ht _ => hasked t ht trivial,
      fun t ht _ => hover t ht trivial⟩
  | awaits hmain hu =>
    rw [hmain] at hasked hover
    exact ⟨hregular', hleft', hbegun, hasked, hover⟩
  | skips hmain hu hidle =>
    rw [hmain] at hasked hover
    refine ⟨hregular', hleft', hbegun, hasked, ?_⟩
    intro t ht hle
    rcases hsame hu ht hle with hlt | rfl
    · exact hover t ht hlt
    · exact .inr ((hbegun t ht).running_or_stopped.resolve_left hidle)
  | joins hmain hu hreturned =>
    rw [hmain] at hasked hover
    refine ⟨hregular', hleft', hbegun, hasked, ?_⟩
    intro t ht hle
    rcases hsame hu ht hle with hlt | rfl
    · exact hover t ht hlt
    · exact .inl hreturned
  | nextSync hmain hu =>
    rw [hmain] at hasked hover
    exact ⟨hregular', hleft', hbegun, hasked,
      fun t ht hpassed => hover t ht ((passed_successor hregular.numbered hu ht).mp hpassed)⟩
  | gone _ _ =>
    exact ⟨hregular', hleft', hbegun, fun _ _ hrequested => hrequested.elim,
      fun _ _ hsynced => hsynced.elim⟩

/-- A thread takes a step. -/
theorem ShuttingDown.set (h : p.ShuttingDown) {it : ℕ} {t : Listed} {e : CallbackEvent}
    {c : ThreadConn} (ht : p.find it = some t) (hc : t.conn.step e = some c) :
    ShuttingDown (p.setConn it c) := by
  obtain ⟨hmem, rfl⟩ := mem_of_find ht
  have hbegun := h.begun t hmem
  constructor
  · refine ⟨h.regular.numbered.of_ids (by rw [ids_setConn]) rfl, ?_,
      fun hmain => absurd hmain h.left⟩
    intro u hu
    rcases mem_setConn hu with rfl | ⟨hu, -⟩
    · exact .inl (ThreadConn.fit_step hbegun.1 hc)
    · exact h.regular.kept u hu
  · exact h.left
  · intro u hu
    rcases mem_setConn hu with rfl | ⟨hu, -⟩
    · exact ThreadConn.begun_step hbegun hc
    · exact h.begun u hu
  · intro u hu hrequested
    rcases mem_setConn hu with rfl | ⟨hu, -⟩
    · exact ThreadConn.asked_step hbegun (h.asked t hmem hrequested) hc
    · exact h.asked u hu hrequested
  · intro u hu hsynced
    rcases mem_setConn hu with rfl | ⟨hu, -⟩
    · exact ThreadConn.over_step hbegun.1 (h.ended t hmem hsynced) hc
    · exact h.ended u hu hsynced

theorem ShuttingDown.step (h : p.ShuttingDown) (hstep : ServerStep p e p') :
    p'.ShuttingDown := by
  have hregular := h.regular.step hstep
  have hleft := hstep.left h.left
  cases hstep with
  | enlist hmain | constructs hmain _ | interrupt hmain | acceptThrows hmain =>
    exact absurd (by rw [hmain]; trivial) h.left
  | moves hmove => exact h.move hmove
  | requests hmain ht =>
    have hset := h.set (e := .requestStop) ht rfl
    refine ⟨hregular, hleft, hset.begun, ?_, fun _ _ hsynced => hsynced.elim⟩
    intro u hu hle
    rcases mem_setConn hu with rfl | ⟨hmem, hne⟩
    · exact (h.begun _ (mem_of_find ht).1).requestStop
    · refine h.asked u hmem ?_
      rw [hmain]
      exact Nat.lt_of_le_of_ne hle hne
  | @requestsAgain it t hmain ht =>
    have hset := h.set (e := .requestStop) ht rfl
    have hkept : (p.setConn it t.conn.requestStop).main = .stopSync (some it) := hmain
    obtain ⟨-, -, hbegun, hasked, hover⟩ := hset
    rw [hkept] at hasked hover
    exact ⟨hregular, hleft, hbegun, hasked, hover⟩
  | callback hown ht hc => exact h.set ht hc
  | cleanup ht hstopped =>
    exact ⟨hregular, h.left, fun t ht => h.begun t (List.mem_of_mem_filter ht),
      fun t ht => h.asked t (List.mem_of_mem_filter ht),
      fun t ht => h.ended t (List.mem_of_mem_filter ht)⟩

variable {before events more : List ServerEvent}

theorem ShuttingDown.run (h : p.ShuttingDown) (hrun : p.run events = some p') : p'.ShuttingDown :=
  Machine.run_invariant (fun _ _ _ hp hstep => ShuttingDown.step hp (step_cases hstep)) h hrun

theorem shuttingDown_interrupt (hp : p.Regular) (hmain : p.main = .accept)
    (hbegun : ∀ t ∈ p.threads, t.conn.state ≠ .waiting) :
    ShuttingDown { p with main := .requestStop p.first } where
  regular := hp.step (.interrupt hmain)
  left := id
  begun t ht := (hp.kept t ht).begun (hbegun t ht)
  asked _ ht hpassed := absurd hpassed (not_passed_first hp.numbered ht)
  ended _ _ hsynced := hsynced.elim

/-- The interrupt, if no thread is in its initial state. -/
theorem run_interrupt (hrun : run {} (before ++ .interrupt :: events) = some p')
    (hbegun : ∀ p, run {} before = some p → ∀ t ∈ p.threads, t.conn.state ≠ .waiting) :
    p'.ShuttingDown := by
  obtain ⟨p, hbefore, hrest⟩ := Machine.run_append_eq_some.mp hrun
  obtain ⟨q, hstep, hevents⟩ := Machine.run_cons_eq_some.mp hrest
  have hregular := regular_start.run hbefore
  cases step_cases hstep with
  | interrupt hmain =>
    exact (shuttingDown_interrupt hregular hmain (hbegun p hbefore)).run hevents

end Steps

end ServerProcess

/-- The number of requests that a thread handles in the event. -/
def ServerEvent.requestsOf (id : ℕ) : ServerEvent → ℕ
  | .callback id' e => if id' = id then e.requests else 0
  | .enlist | .interrupt | .acceptThrows | .main | .cleanup _ => 0

namespace ServerProcess

section Requests

variable {p p' : ServerProcess} {e : ServerEvent} {id : ℕ} {t : Listed}
  {before events more : List ServerEvent}

/-- The thread under the id, if it is still there, has been asked to stop and can
handle `n` more requests. -/
structure StopRequested (id n : ℕ) (p : ServerProcess) : Prop where
  regular : p.Regular
  lt : id < p.nextId
  thread : ∀ t ∈ p.threads, t.id = id → t.conn.Begun ∧ t.conn.Asked ∧ t.conn.owed ≤ n

theorem StopRequested.set {n it : ℕ} (h : p.StopRequested id n) {e : CallbackEvent}
    {c : ThreadConn} (ht : p.find it = some t) (hc : t.conn.step e = some c) :
    ∃ k, (∀ u ∈ (p.setConn it c).threads, u.id = id →
      u.conn.Begun ∧ u.conn.Asked ∧ u.conn.owed ≤ k) ∧
      (if it = id then e.requests else 0) + k ≤ n := by
  obtain ⟨hmem, hid⟩ := mem_of_find ht
  by_cases hit : it = id
  · obtain ⟨hbegun, hasked, howed⟩ := h.thread t hmem (hid.trans hit)
    have hcost := ThreadConn.owed_step hbegun hasked hc
    refine ⟨c.owed, ?_, by rw [if_pos hit]; omega⟩
    intro u hu huid
    rcases mem_setConn hu with rfl | ⟨-, hne⟩
    · exact ⟨ThreadConn.begun_step hbegun hc, ThreadConn.asked_step hbegun hasked hc, Nat.le_refl _⟩
    · exact absurd (huid.trans hit.symm) hne
  · refine ⟨n, ?_, by rw [if_neg hit, Nat.zero_add]⟩
    intro u hu huid
    rcases mem_setConn hu with rfl | ⟨hu, -⟩
    · exact absurd huid hit
    · exact h.thread u hu huid

theorem StopRequested.step {n : ℕ} (h : p.StopRequested id n) (hstep : ServerStep p e p') :
    ∃ k, p'.StopRequested id k ∧ e.requestsOf id + k ≤ n := by
  have hregular := h.regular.step hstep
  cases hstep with
  | enlist hmain =>
    refine ⟨n, ⟨hregular, Nat.lt_succ_of_lt h.lt, ?_⟩, by simp [ServerEvent.requestsOf]⟩
    intro u hu hid
    rcases List.mem_append.mp hu with hu | hu
    · exact h.thread u hu hid
    · obtain rfl := List.mem_singleton.mp hu
      exact absurd hid (Nat.ne_of_gt h.lt)
  | constructs hmain ht =>
    refine ⟨n, ⟨hregular, h.lt, ?_⟩, by simp [ServerEvent.requestsOf]⟩
    intro u hu hid
    rcases mem_setConn hu with rfl | ⟨hu, -⟩
    · -- nobody asks a thread to stop while it is constructed
      obtain ⟨hmem, rfl⟩ := mem_of_find ht
      have hunasked := h.regular.unasked (by rw [hmain]; trivial) _ hmem
      exact absurd (h.thread _ hmem hid).2.1 hunasked.not_asked
    · exact h.thread u hu hid
  | interrupt _ | acceptThrows _ | moves _ =>
    exact ⟨n, ⟨hregular, h.lt, h.thread⟩, by simp [ServerEvent.requestsOf]⟩
  | requests hmain ht | requestsAgain hmain ht =>
    obtain ⟨k, hthread, hle⟩ := h.set (e := .requestStop) ht rfl
    refine ⟨k, ⟨hregular, h.lt, hthread⟩, ?_⟩
    simp only [ServerEvent.requestsOf]
    omega
  | callback hown ht hc =>
    obtain ⟨k, hthread, hle⟩ := h.set ht hc
    exact ⟨k, ⟨hregular, h.lt, hthread⟩, hle⟩
  | cleanup ht hstopped =>
    exact ⟨n, ⟨hregular, h.lt, fun u hu => h.thread u (List.mem_of_mem_filter hu)⟩,
      by simp [ServerEvent.requestsOf]⟩

/-- Once it has been asked to stop a thread handles at most one more request. -/
theorem one_more_request (hreach : run {} events = some p) (ht : t ∈ p.threads)
    (hasked : t.conn.Asked) (hrun : p.run more = some p') :
    (more.map (·.requestsOf t.id)).sum ≤ 1 := by
  have hregular := regular_start.run hreach
  have hstart : p.StopRequested t.id 1 := by
    refine ⟨hregular, hregular.numbered.lt t ht, ?_⟩
    intro u hu hid
    rw [Table.eq_of_key hregular.numbered.keyed hu ht hid]
    exact ⟨(hregular.kept t ht).begun_of_asked hasked, hasked, ThreadConn.owed_le_one⟩
  exact Machine.run_spends (W := fun n p => p.StopRequested t.id n)
    (fun _ _ _ _ hp hstep => StopRequested.step hp (step_cases hstep)) hstart hrun

/-- What is left to the threads behind the loops of `main`. -/
theorem ShuttingDown.step_of_done (h : p.ShuttingDown) (hdone : p.main = .done)
    (hstep : ServerStep p e p') : p'.main = .done ∧ ∀ id, e.requestsOf id = 0 := by
  cases hstep with
  | enlist hmain | constructs hmain _ | interrupt hmain | acceptThrows hmain =>
    exact absurd (by rw [hmain]; trivial) h.left
  | moves hmove => exact absurd (.inr hdone) hmove.shutsDown
  | requests hmain _ | requestsAgain hmain _ => simp [hdone] at hmain
  | callback hown ht hc =>
    obtain ⟨hmem, -⟩ := mem_of_find ht
    have hbegun := h.begun _ hmem
    have hasked := h.asked _ hmem (by rw [hdone]; trivial)
    have hover := h.ended _ hmem (by rw [hdone]; trivial)
    have hcost := ThreadConn.owed_step hbegun hasked hc
    rw [ThreadConn.owed_of_over hbegun.1 hover] at hcost
    refine ⟨hdone, fun id => ?_⟩
    simp only [ServerEvent.requestsOf]
    split <;> omega
  | cleanup ht hstopped => exact ⟨hdone, fun _ => rfl⟩

/-- No request is handled after `main` has left its loops. -/
theorem shutdown_complete (hrun : run {} (before ++ .interrupt :: events) = some p)
    (hbegun : ∀ p, run {} before = some p → ∀ t ∈ p.threads, t.conn.state ≠ .waiting)
    (hdone : p.main = .done) (hmore : p.run more = some p') :
    (∀ t ∈ p'.threads, t.conn.Over) ∧ ∀ id, (more.map (·.requestsOf id)).sum = 0 := by
  have hstart : p.ShuttingDown ∧ p.main = .done := ⟨run_interrupt hrun hbegun, hdone⟩
  obtain ⟨hend, hmain⟩ : p'.ShuttingDown ∧ p'.main = .done :=
    Machine.run_invariant (I := fun p => p.ShuttingDown ∧ p.main = .done)
      (fun _ _ _ hp hstep => ⟨hp.1.step (step_cases hstep),
        (hp.1.step_of_done hp.2 (step_cases hstep)).1⟩) hstart hmore
  refine ⟨fun t ht => hend.ended t ht (by rw [hmain]; trivial), fun id => ?_⟩
  refine Nat.le_zero.mp (Machine.run_spends
    (W := fun _ p => p.ShuttingDown ∧ p.main = .done) ?_ hstart hmore)
  rintro n q e q' ⟨hq, hqmain⟩ hstep
  obtain ⟨hqmain', hcost⟩ := hq.step_of_done hqmain (step_cases hstep)
  exact ⟨n, ⟨hq.step (step_cases hstep), hqmain'⟩, by rw [hcost id, Nat.zero_add]⟩

/-- A thread whose state its constructor has overwritten is not waited for. -/
example : (run {} ([.enlist, .callback 0 .proceed, .callback 0 (.shutdown 0), .main, .interrupt] ++
    List.replicate 7 .main)).any fun p => p.main = .done ∧
      (p.run [.callback 0 (.sslRead 7), .callback 0 (.handled none)]).isSome := by
  decide

/-- The server between the loops of `main` and the answer to the last request. -/
def asked : ServerProcess where
  threads := [{ id := 0, conn := { state := .stopping, ssl := true, point := .read } }]
  nextId := 1
  main := .nextRequest 0

theorem one_more_request_asked : ((stopping.drop 6).map (·.requestsOf 0)).sum ≤ 1 :=
  one_more_request (by decide : run {} (stopping.take 6) = some asked) List.mem_cons_self
    (.inl rfl) (by decide : asked.run (stopping.drop 6) = some stopped)

/-- The rest of the loops, when the thread has stopped in time. -/
def leaving : List ServerEvent := stopping.drop 5 ++ [.main, .main, .main, .main, .main, .main]

def left : ServerProcess := { stopped with main := .done }

def ended : ServerProcess where
  threads := [{ id := 0, conn := { state := .stopped, ssl := false, point := .returned } }]
  nextId := 1
  main := .done

theorem shutdown_complete_left : (∀ t ∈ ended.threads, t.conn.Over) ∧
    ∀ id, (([.callback 0 .proceed] : List ServerEvent).map (·.requestsOf id)).sum = 0 := by
  have hrun : run {} (stopping.take 4 ++ .interrupt :: leaving) = some left := by decide
  refine shutdown_complete hrun ?_ rfl (by decide : left.run [.callback 0 .proceed] = some ended)
  have hbefore : run {} (stopping.take 4) = some { threads := [{ id := 0, conn :=
      { state := .running, ssl := true, point := .read } }], nextId := 1 } := by decide
  intro p hp
  rw [hbefore] at hp
  cases hp
  decide

end Requests

section Iteration

variable {p p' : ServerProcess} {e : ServerEvent} {id it : ℕ} {t : Listed}
  {events : List ServerEvent}

/-- The iterator of `main` points to a thread that is gone. -/
def Dangling (p : ServerProcess) : Prop := ∃ it, p.main.iterator = some it ∧ p.find it = none

/-- `main` has used such an iterator, or holds one. -/
def Astray (p : ServerProcess) : Prop := p.main = .lost ∨ p.Dangling

theorem find_ne_none : p.find id ≠ none ↔ id ∈ p.threads.map (·.id) := by
  rw [ne_eq, find_eq_none]
  simp

theorem find_setConn_ne_none {c : ThreadConn} :
    (p.setConn it c).find id ≠ none ↔ p.find id ≠ none := by
  rw [find_ne_none, find_ne_none, ids_setConn]

theorem not_astray (hlost : p.main ≠ .lost) (hfind : ∀ it, p.main.iterator = some it →
    p.find it ≠ none) : ¬ p.Astray := by
  rintro (hmain | ⟨it, hit, hnone⟩)
  · exact hlost hmain
  · exact hfind it hit hnone

theorem first_found (h : p.first = some id) : p.find id ≠ none := by
  obtain ⟨t, ht, hid⟩ := first_mem h
  exact find_ne_none.mpr (hid ▸ List.mem_map_of_mem ht)

theorem successor_found (h : p.successor it = some id) : p.find id ≠ none := by
  obtain ⟨t, ht, hid⟩ := successor_mem h
  exact find_ne_none.mpr (hid ▸ List.mem_map_of_mem ht)

/-- A step of `main` does not lead astray. -/
theorem not_astray_move (h : ¬ p.Astray) {m : MainPoint} (hmove : MainMove p m) :
    ¬ Astray { p with main := m } := by
  have hsame {it : ℕ} {t : Listed} (ht : p.find it = some t) : p.find it ≠ none := by
    rw [ht]
    exact Option.some_ne_none t
  refine not_astray ?_ ?_
  · cases hmove with
    | gone hit hnone => exact absurd (.inr ⟨_, hit, hnone⟩) h
    | _ => simp
  · intro it hit
    cases hmove with
    | allRequested _ => exact first_found hit
    | nextRequest _ _ | nextSync _ _ => exact successor_found hit
    | allSynced _ | gone _ _ => cases hit
    | awaits _ ht | skips _ ht _ | joins _ ht _ =>
      cases hit
      exact hsame ht

/-- Only the cleaner leads `main` astray. -/
theorem not_astray_step (h : ¬ p.Astray) (hstep : ServerStep p e p')
    (he : ∀ it, e = .cleanup it → p.main.iterator ≠ some it) : ¬ p'.Astray := by
  have hlost : p.main ≠ .lost := fun hmain => h (.inl hmain)
  have hheld : ∀ it, p.main.iterator = some it → p.find it ≠ none :=
    fun it hit hnone => h (.inr ⟨it, hit, hnone⟩)
  cases hstep with
  | enlist _ | constructs _ _ => exact not_astray (by simp) fun it hit => by cases hit
  | interrupt _ => exact not_astray (by simp) fun it hit => first_found hit
  | acceptThrows _ => exact not_astray (by simp) fun it hit => by cases hit
  | moves hmove => exact not_astray_move h hmove
  | requests hmain ht | requestsAgain hmain ht =>
    refine not_astray (by simp) ?_
    intro it hit
    cases hit
    exact find_setConn_ne_none.mpr (by rw [ht]; exact Option.some_ne_none _)
  | callback _ _ _ =>
    exact not_astray hlost fun it hit => find_setConn_ne_none.mpr (hheld it hit)
  | @cleanup id t ht _ _ =>
    refine not_astray hlost ?_
    intro it hit
    have hne : it ≠ id := fun heq => he id rfl (heq ▸ hit)
    obtain ⟨u, hu, hid⟩ := List.mem_map.mp (find_ne_none.mp (hheld it hit))
    exact find_ne_none.mpr (List.mem_map.mpr
      ⟨u, List.mem_filter.mpr ⟨hu, by simpa [hid] using hne⟩, hid⟩)

/-- The next step of `main` with such an iterator. -/
theorem move_of_astray (h : p.Astray) {m : MainPoint} (hmove : MainMove p m) : m = .lost := by
  rcases h with hlost | ⟨it, hit, hnone⟩
  · cases hmove with
    | gone _ _ => rfl
    | allRequested hmain | nextRequest hmain _ | allSynced hmain | awaits hmain _
    | skips hmain _ _ | joins hmain _ _ | nextSync hmain _ => simp [hlost] at hmain
  · cases hmove with
    | gone _ _ => rfl
    | allRequested hmain | allSynced hmain => simp [hmain, MainPoint.iterator] at hit
    | nextRequest hmain ht | awaits hmain ht | skips hmain ht _ | joins hmain ht _
    | nextSync hmain ht =>
      obtain rfl : _ = it := by simpa [hmain, MainPoint.iterator] using hit
      simp [hnone] at ht

/-- `main` does not find back. -/
theorem astray_step (h : p.Astray) (hstep : ServerStep p e p') : p'.Astray := by
  cases hstep with
  | enlist hmain | constructs hmain _ | interrupt hmain | acceptThrows hmain =>
    rcases h with hlost | ⟨it, hit, -⟩
    · simp [hlost] at hmain
    · simp [hmain, MainPoint.iterator] at hit
  | moves hmove => exact .inl (move_of_astray h hmove)
  | requests hmain ht | requestsAgain hmain ht =>
    rcases h with hlost | ⟨it, hit, hnone⟩
    · simp [hlost] at hmain
    · obtain rfl : _ = it := by simpa [hmain, MainPoint.iterator] using hit
      simp [hnone] at ht
  | callback _ _ _ =>
    rcases h with hlost | ⟨it, hit, hnone⟩
    · exact .inl hlost
    · exact .inr ⟨it, hit, not_not.mp fun hfound => find_setConn_ne_none.mp hfound hnone⟩
  | cleanup _ _ _ =>
    rcases h with hlost | ⟨it, hit, hnone⟩
    · exact .inl hlost
    · exact .inr ⟨it, hit, find_eq_none.mpr fun t ht =>
        find_eq_none.mp hnone t (List.mem_of_mem_filter ht)⟩

theorem astray_of_cleanup (hit : p.main.iterator = some it)
    (hstep : p.step (.cleanup it) = some p') : p'.Astray := by
  cases step_cases hstep with
  | cleanup _ _ _ =>
    refine .inr ⟨it, hit, find_eq_none.mpr ?_⟩
    intro u hu
    simpa using (List.mem_filter.mp hu).2

/-- `main` goes astray exactly when the cleaner drops the thread that its iterator
points to. -/
theorem astray_iff (hrun : run {} events = some p) : p.Astray ↔
    ∃ before it after q, events = before ++ .cleanup it :: after ∧ run {} before = some q ∧
      q.main.iterator = some it := by
  refine Machine.run_history (H := fun events p => p.Astray ↔ ∃ before it after q,
    events = before ++ .cleanup it :: after ∧ run {} before = some q ∧
      q.main.iterator = some it) ?_ ?_ hrun
  · refine iff_of_false (not_astray (by simp) fun it hit => by cases hit) ?_
    rintro ⟨before, it, after, q, hevents, -⟩
    cases before <;> cases hevents
  · intro events q e q' hq ih hstep
    constructor
    · intro hastray
      by_cases hbefore : q.Astray
      · obtain ⟨before, it, after, r, rfl, hr, hit⟩ := ih.mp hbefore
        exact ⟨before, it, after ++ [e], r, by simp, hr, hit⟩
      · by_contra hno
        refine not_astray_step hbefore (step_cases hstep) ?_ hastray
        rintro it rfl hit
        exact hno ⟨events, it, [], q, rfl, hq, hit⟩
    · rintro ⟨before, it, after, r, hevents, hr, hit⟩
      rcases List.eq_nil_or_concat after with rfl | ⟨after, x, rfl⟩
      · obtain ⟨rfl, hlast⟩ := List.append_inj' hevents rfl
        obtain rfl : e = .cleanup it := by simpa using hlast
        obtain rfl : q = r := Option.some.inj (hq.symm.trans hr)
        exact astray_of_cleanup hit hstep
      · have hsplit : events ++ [e] = (before ++ .cleanup it :: after) ++ [x] := by
          rw [hevents]
          simp
        obtain ⟨rfl, -⟩ := List.append_inj' hsplit rfl
        exact astray_step (ih.mpr ⟨before, it, after, r, rfl, hr, hit⟩) (step_cases hstep)

/-- The cleaner is faster than `main`. -/
def overtaking : List ServerEvent := stopping ++ [.cleanup 0, .main]

def astray : ServerProcess where
  threads := []
  nextId := 1
  main := .lost

theorem astray_iff_overtaking : astray.Astray ↔
    ∃ before it after q, overtaking = before ++ .cleanup it :: after ∧
      run {} before = some q ∧ q.main.iterator = some it :=
  astray_iff (by decide : run {} overtaking = some astray)

end Iteration

end ServerProcess
end Dotchat
