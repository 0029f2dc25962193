import Dotchat.Shutdown

/-!
How long `main` takes to shut the server down. After the interrupt it makes a bounded
number of steps in every run, and it waits for nothing but threads that have not
returned, which they always can if their clients let them. A thread does not return
while its client is silent: the interrupt does not end the read.
-/
namespace Dotchat

namespace ServerProcess

section Points

variable {p p' : ServerProcess} {e : ServerEvent} {id : ℕ} {t : Listed} {c : ThreadConn}

/-- Where `callback` of the thread stands, if it is still listed. -/
def pointAt (p : ServerProcess) (id : ℕ) : Option CallbackPoint := (p.find id).map (·.conn.point)

theorem find_setConn_self (h : p.find id = some t) : (p.setConn id c).find id = some ⟨id, c⟩ :=
  Table.lookup_update_self (r := (⟨id, c⟩ : Listed)) h

theorem find_setConn_of_ne {other : ℕ} (hne : id ≠ other) :
    (p.setConn id c).find other = p.find other :=
  Table.lookup_update_of_ne (r := (⟨id, c⟩ : Listed)) hne

/-- What a step does to the point of one thread. -/
inductive PointStep (p : ServerProcess) (id : ℕ) : ServerEvent → Option CallbackPoint → Prop
  | stays {e : ServerEvent} : PointStep p id e (p.pointAt id)
  | starts {e : ServerEvent} (hid : p.nextId = id) : PointStep p id e (some .setRunning)
  | advances {e : CallbackEvent} {t : Listed} {c : ThreadConn} (he : e ≠ .requestStop)
      (ht : p.find id = some t) (hc : t.conn.step e = some c) :
      PointStep p id (.callback id e) (some c.point)
  | drops {e : ServerEvent} {t : Listed} (ht : p.find id = some t) (hstopped : t.conn.isStopped) :
      PointStep p id e none

/-- Setting a thread leaves the points alone, if its own one stays. -/
theorem pointAt_setConn {it : ℕ} (ht : p.find it = some t) (hpoint : c.point = t.conn.point) :
    (p.setConn it c).pointAt id = p.pointAt id := by
  by_cases hid : it = id
  · subst hid
    rw [pointAt, find_setConn_self ht, pointAt, ht]
    exact congrArg some hpoint
  · rw [pointAt, find_setConn_of_ne hid, pointAt]

theorem pointAt_step (hp : p.Numbered) (hstep : ServerStep p e p') (id : ℕ) :
    PointStep p id e (p'.pointAt id) := by
  cases hstep with
  | enlist _ =>
    have hfresh : ∀ t ∈ p.threads, t.id ≠ p.nextId := fun t ht => (hp.lt t ht).ne
    have hfind := Table.lookup_append (k := id) (r := (⟨p.nextId, {}⟩ : Listed)) hfresh
    rw [pointAt, find, hfind]
    split
    · rename_i hid
      exact .starts hid
    · exact .stays
  | @constructs it t _ ht =>
    show PointStep p id _ ((p.setConn it t.conn.initState).pointAt id)
    have hpoint : t.conn.initState.point = t.conn.point := rfl
    rw [pointAt_setConn ht hpoint]
    exact .stays
  | interrupt _ | acceptThrows _ | moves _ => exact .stays
  | @requests it t _ ht | @requestsAgain it t _ ht =>
    show PointStep p id _ ((p.setConn it t.conn.requestStop).pointAt id)
    rw [pointAt_setConn ht ThreadConn.requestStop_point]
    exact .stays
  | @callback it t ev c he ht hc =>
    by_cases hid : it = id
    · subst hid
      rw [pointAt, find_setConn_self ht]
      exact .advances he ht hc
    · rw [pointAt, find_setConn_of_ne hid]
      exact .stays
  | @cleanup it t ht hstopped _ =>
    have hfilter := Table.lookup_filter (k := id) hp.keyed fun t => t.id ≠ it
    by_cases hid : it = id
    · subst hid
      have hpoint : pointAt { p with threads := p.threads.filter (·.id ≠ it) } it = none := by
        rw [pointAt, find, hfilter]
        have hfind : Table.lookup (·.id) it p.threads = some t := ht
        rw [hfind, Option.filter_some, if_neg (by simp [(mem_of_find ht).2])]
        rfl
      rw [hpoint]
      exact .drops ht hstopped
    · have hpoint : pointAt { p with threads := p.threads.filter (·.id ≠ it) } id =
          p.pointAt id := by
        rw [pointAt, find, hfilter, pointAt, find]
        cases hfind : Table.lookup (·.id) id p.threads with
        | none => rfl
        | some u =>
          have hu : u.id = id := (Table.mem_of_lookup hfind).2
          rw [Option.filter_some, if_pos (by simp [hu, Ne.symm hid])]
      rw [hpoint]
      exact .stays

theorem nextId_le (hstep : ServerStep p e p') : p.nextId ≤ p'.nextId := by
  cases hstep with
  | enlist _ => exact Nat.le_succ _
  | _ => exact le_rfl

end Points

section Weights

variable {p p' q : ServerProcess} {e : ServerEvent} {it : ℕ} {t : Listed}
  {before events : List ServerEvent}

/-- How many threads the iterator has not passed. -/
def ahead (p : ServerProcess) : Option ℕ → ℕ
  | none => 0
  | some it => (p.threads.map (·.id)).countP (it ≤ ·)

/-- How many of them are behind the one that it points to. -/
def behind (p : ServerProcess) (it : ℕ) : ℕ := (p.threads.map (·.id)).countP (it < ·)

/-- A bound for the steps that are left to `main`: two for each thread in the first loop,
four in the second one. -/
def weight (p : ServerProcess) : ℕ :=
  match p.main with
  | .requestStop it => 4 * p.threads.length + 2 + 2 * p.ahead it
  | .nextRequest it => 4 * p.threads.length + 3 + 2 * p.behind it
  | .stopSync it => 4 * p.ahead it + 1
  | .waitFor it => 4 * p.behind it + 4
  | .join it => 4 * p.behind it + 3
  | .nextSync it => 4 * p.behind it + 2
  | .enlisting _ => 1
  | .accept | .done | .lost => 0

theorem ahead_first (h : p.Numbered) : p.ahead p.first = p.threads.length := by
  have hnot : ∀ t ∈ p.threads, ¬ Passed p.first t.id := fun t => not_passed_first h
  cases hfirst : p.first with
  | none =>
    have hnil : p.threads = [] := by
      unfold first at hfirst
      simpa using hfirst
    rw [hnil]
    rfl
  | some it =>
    rw [hfirst] at hnot
    rw [ahead, ← List.length_map (fun t : Listed => t.id), List.countP_eq_length]
    intro id hid
    obtain ⟨t, ht, rfl⟩ := List.mem_map.mp hid
    exact decide_eq_true (Nat.not_lt.mp (hnot t ht))

theorem ahead_some (h : p.Numbered) (ht : p.find it = some t) :
    p.ahead (some it) = p.behind it + 1 := by
  obtain ⟨front, back, hsplit, -, hfront, hback⟩ := exists_around h ht
  obtain ⟨-, rfl⟩ := mem_of_find ht
  have hlater := (List.pairwise_cons.mp hback).1
  have hnone : ∀ le : ℕ → Bool, (∀ id, le id = true → t.id ≤ id) →
      (front.map (·.id)).countP le = 0 := by
    intro le hle
    rw [List.countP_eq_zero]
    intro id hid hmem
    obtain ⟨u, hu, rfl⟩ := List.mem_map.mp hid
    have hlt := hfront u hu
    have hge := hle _ hmem
    exact absurd hge (Nat.not_le.mpr hlt)
  have hall : (back.map (·.id)).countP (t.id ≤ ·) = (back.map (·.id)).countP (t.id < ·) := by
    refine List.countP_congr fun id hid => ?_
    have hlt : t.id < id := hlater id hid
    simp only [decide_eq_true_eq]
    omega
  simp only [ahead, behind, hsplit, List.map_append, List.map_cons, List.countP_append,
    List.countP_cons, hall]
  rw [hnone _ (by simp), hnone _ (by simp; omega)]
  simp

theorem ahead_successor (h : p.Numbered) (ht : p.find it = some t) :
    p.ahead (p.successor it) = p.behind it := by
  have hpassed := fun {u : Listed} (hu : u ∈ p.threads) => passed_successor h ht hu
  cases hnext : p.successor it with
  | none =>
    rw [hnext] at hpassed
    refine (List.countP_eq_zero.mpr ?_).symm
    intro id hid
    obtain ⟨u, hu, rfl⟩ := List.mem_map.mp hid
    have hle := (hpassed hu).mp trivial
    simpa using hle
  | some next =>
    rw [hnext] at hpassed
    refine List.countP_congr fun id hid => ?_
    obtain ⟨u, hu, rfl⟩ := List.mem_map.mp hid
    have hiff : u.id < next ↔ u.id ≤ it := hpassed hu
    simp only [decide_eq_true_eq]
    omega

@[simp] theorem ahead_main {m : MainPoint} {it : Option ℕ} :
    ahead { p with main := m } it = p.ahead it := by
  cases it <;> rfl

@[simp] theorem behind_main {m : MainPoint} : behind { p with main := m } it = p.behind it := rfl

@[simp] theorem behind_setConn {id : ℕ} {c : ThreadConn} :
    (p.setConn id c).behind it = p.behind it := by
  rw [behind, ids_setConn, behind]

@[simp] theorem length_setConn {id : ℕ} {c : ThreadConn} :
    (p.setConn id c).threads.length = p.threads.length := by
  rw [← List.length_map (fun t : Listed => t.id), ids_setConn, List.length_map]

theorem weight_pos {it : ℕ} (h : p.main.iterator = some it) : 0 < p.weight := by
  unfold weight
  cases hmain : p.main <;> simp [hmain, MainPoint.iterator] at h ⊢

/-- Each step of `main` counts. -/
theorem weight_main (h : p.Numbered) (hstep : ServerStep p .main p') :
    p'.weight < p.weight := by
  cases hstep with
  | constructs hmain _ => simp [weight, hmain]
  | requests hmain ht =>
    simp only [weight, hmain, behind_main, behind_setConn, length_setConn, ahead_some h ht]
    omega
  | requestsAgain hmain ht =>
    simp only [weight, hmain, behind_main, behind_setConn, ahead_some h ht]
    omega
  | moves hmove =>
    cases hmove with
    | allRequested hmain =>
      simp only [weight, hmain, ahead_main, ahead_first h]
      omega
    | nextRequest hmain ht =>
      simp only [weight, hmain, ahead_main, ahead_successor h ht]
      omega
    | allSynced hmain => simp [weight, hmain]
    | awaits hmain _ | skips hmain _ _ | joins hmain _ _ =>
      simp only [weight, hmain, behind_main]
      omega
    | nextSync hmain ht =>
      simp only [weight, hmain, ahead_main, ahead_successor h ht]
      omega
    | gone hit _ => exact weight_pos hit

theorem weight_le (hmain : p'.main = p.main)
    (hids : (p'.threads.map (·.id)).Sublist (p.threads.map (·.id))) : p'.weight ≤ p.weight := by
  have hlength : p'.threads.length ≤ p.threads.length := by simpa using hids.length_le
  have hbehind (it : ℕ) : p'.behind it ≤ p.behind it := hids.countP_le
  have hahead (place : Option ℕ) : p'.ahead place ≤ p.ahead place := by
    cases place with
    | none => exact le_rfl
    | some it => exact hids.countP_le
  unfold weight
  rw [hmain]
  cases p.main with
  | accept | enlisting _ | done | lost => exact le_rfl
  | requestStop it | stopSync it =>
    have hle := hahead it
    simp only
    omega
  | nextRequest it | waitFor it | join it | nextSync it =>
    have hle := hbehind it
    simp only
    omega

/-- What the others do leaves `main` no more to do. -/
theorem weight_step (hleft : ¬ p.main.Accepting) (he : e ≠ .main) (hstep : ServerStep p e p') :
    p'.weight ≤ p.weight := by
  cases hstep with
  | enlist hmain | interrupt hmain | acceptThrows hmain =>
    exact absurd (by rw [hmain]; trivial) hleft
  | constructs _ _ | moves _ | requests _ _ | requestsAgain _ _ => exact absurd rfl he
  | callback _ _ _ => exact weight_le rfl (by rw [ids_setConn])
  | cleanup _ _ _ => exact weight_le rfl (List.filter_sublist.map _)

theorem access_eq_none {f : ThreadConn → Option ServerProcess} :
    p.access it f = none ↔ ∃ t, p.find it = some t ∧ f t.conn = none := by
  unfold access
  cases p.find it <;> simp

/-- `main` waits for a thread that has not returned, and for nothing else. -/
theorem mainStep_eq_none (hleft : ¬ p.main.Accepting) : p.step .main = none ↔
    p.main = .done ∨ p.main = .lost ∨
      ∃ it t, p.main = .join it ∧ p.find it = some t ∧ t.conn.point ≠ .returned := by
  show p.mainStep = none ↔ _
  unfold mainStep
  cases hmain : p.main with
  | accept | enlisting _ => exact absurd (by rw [hmain]; trivial) hleft
  | done | lost => simp
  | requestStop it | stopSync it => cases it <;> simp [access_eq_none]
  | nextRequest it | waitFor it | nextSync it => simp [access_eq_none]
  | join it => simp [access_eq_none]

theorem weight_run (h : p.Numbered) (hleft : ¬ p.main.Accepting) (hrun : p.run events = some p') :
    events.count .main + p'.weight ≤ p.weight := by
  induction events generalizing p with
  | nil =>
    cases hrun
    simp
  | cons e events ih =>
    obtain ⟨r, hstep, hrest⟩ := Machine.run_cons_eq_some.mp hrun
    have hcases := step_cases hstep
    have htail := ih (h.step hcases) (hcases.left hleft) hrest
    by_cases he : e = .main
    · subst he
      have hlt := weight_main h hcases
      rw [List.count_cons_self]
      omega
    · have hle := weight_step hleft he hcases
      rw [List.count_cons_of_ne he]
      omega

/-- After the interrupt `main` makes a bounded number of steps, in every order of steps,
and stands still only where it has ended or waits for a thread that has not returned. -/
theorem main_bounded (hbefore : run {} before = some q)
    (hrun : q.run (.interrupt :: events) = some p) :
    events.count .main ≤ 6 * q.threads.length + 2 ∧
      (p.step .main = none ↔ p.main = .done ∨ p.main = .lost ∨
        ∃ it t, p.main = .join it ∧ p.find it = some t ∧ t.conn.point ≠ .returned) := by
  obtain ⟨r, hstep, hevents⟩ := Machine.run_cons_eq_some.mp hrun
  have hnumbered := (regular_start.run hbefore).numbered
  cases step_cases hstep with
  | interrupt _ =>
    have hstart : Numbered { q with main := .requestStop q.first } :=
      ⟨hnumbered.sorted, hnumbered.lt⟩
    have hspent := weight_run hstart id hevents
    have hleft : ¬ p.main.Accepting := Machine.run_invariant (I := fun p => ¬ p.main.Accepting)
      (fun _ _ _ hs hnext => (step_cases hnext).left hs) id hevents
    refine ⟨?_, mainStep_eq_none hleft⟩
    simp only [weight, ahead_main, ahead_first hnumbered] at hspent
    omega

/-- `main` after it has asked the thread of a silent client to stop. -/
def waiting : ServerProcess where
  threads := [{ id := 0, conn := { state := .stopping, ssl := true, point := .read } }]
  nextId := 1
  main := .join 0

/-- A client has connected and sends nothing. -/
def silent : ServerProcess where
  threads := [{ id := 0, conn := { state := .running, ssl := true, point := .read } }]
  nextId := 1

theorem main_bounded_waiting : (List.replicate 5 ServerEvent.main).count .main ≤ 6 * 1 + 2 ∧
    (waiting.step .main = none ↔ waiting.main = .done ∨ waiting.main = .lost ∨
      ∃ it t, waiting.main = .join it ∧ waiting.find it = some t ∧ t.conn.point ≠ .returned) :=
  main_bounded (by decide : run {} (stopping.take 4) = some silent)
    (by decide : silent.run (.interrupt :: List.replicate 5 .main) = some waiting)

end Weights

section Silence

variable {p p' : ServerProcess} {e : ServerEvent} {id : ℕ} {t : Listed}
  {events more : List ServerEvent}

/-- `main` does not get past a thread that has begun and reads. -/
theorem not_synced_step (h : p.Regular) (hleft : ¬ p.main.Accepting) (ht : t ∈ p.threads)
    (hbegun : t.conn.Begun) (hread : t.conn.point = .read) (hwaits : ¬ p.main.Synced t.id)
    (hstep : ServerStep p e p') : ¬ p'.main.Synced t.id := by
  have hsame {it : ℕ} {u : Listed} (hu : p.find it = some u) (hnot : ¬ t.id < it)
      (hle : t.id ≤ it) : t = u := by
    obtain ⟨hmem, hid⟩ := mem_of_find hu
    exact Table.eq_of_key h.numbered.keyed ht hmem (by omega)
  cases hstep with
  | enlist hmain | constructs hmain _ | interrupt hmain | acceptThrows hmain =>
    exact absurd (by rw [hmain]; trivial) hleft
  | callback _ _ _ | cleanup _ _ _ => exact hwaits
  | requests _ _ => exact fun hsynced => hsynced
  | requestsAgain hmain _ =>
    rw [hmain] at hwaits
    exact hwaits
  | moves hmove =>
    cases hmove with
    | allRequested _ => exact not_passed_first h.numbered ht
    | nextRequest _ _ | gone _ _ => exact fun hsynced => hsynced
    | allSynced hmain =>
      rw [hmain] at hwaits
      exact absurd trivial hwaits
    | awaits hmain _ =>
      rw [hmain] at hwaits
      exact hwaits
    | skips hmain hu hidle =>
      rw [hmain] at hwaits
      intro hle
      have hstopped := hbegun.running_or_stopped.resolve_left (hsame hu hwaits hle ▸ hidle)
      rcases (hbegun.1.of_stopped hstopped).2 with hpoint | hpoint <;> simp [hread] at hpoint
    | joins hmain hu hreturned =>
      rw [hmain] at hwaits
      intro hle
      rw [← hsame hu hwaits hle, hread] at hreturned
      cases hreturned
    | nextSync hmain hu =>
      rw [hmain] at hwaits
      exact fun hpassed => hwaits ((passed_successor h.numbered hu ht).mp hpassed)

/-- The thread reads, after it has set its state and behind its constructor. -/
def Reads (p : ServerProcess) (id : ℕ) : Prop :=
  ∃ t ∈ p.threads, t.id = id ∧ t.conn.Begun ∧ t.conn.point = .read

/-- Nobody but its client ends the read of a thread. -/
theorem Reads.step (hreads : p.Reads id) (h : p.Regular) (hleft : ¬ p.main.Accepting)
    (hquiet : ∀ got, e ≠ .callback id (.sslRead got)) (hstep : ServerStep p e p') :
    p'.Reads id := by
  obtain ⟨t, ht, rfl, hbegun, hread⟩ := hreads
  have hfound : p.find t.id = some t := h.numbered.find_eq_some.mpr ⟨ht, rfl⟩
  have hsame {u : Listed} (hu : p.find t.id = some u) : t = u :=
    Option.some.inj (hfound.symm.trans hu)
  have hkeeps {it : ℕ} {u : Listed} {c : ThreadConn} (hu : p.find it = some u)
      (hc : u.conn.step .requestStop = some c) : (p.setConn it c).Reads t.id := by
    by_cases hid : it = t.id
    · subst hid
      obtain rfl := hsame hu
      have hpoint : c.point = .read := by
        cases hc
        exact ThreadConn.requestStop_point.trans hread
      obtain ⟨hmem, -⟩ := mem_of_find (find_setConn_self (c := c) hfound)
      exact ⟨_, hmem, rfl, ThreadConn.begun_step hbegun hc, hpoint⟩
    · obtain ⟨hmem, -⟩ := mem_of_find ((find_setConn_of_ne (c := c) hid).trans hfound)
      exact ⟨t, hmem, rfl, hbegun, hread⟩
  cases hstep with
  | enlist hmain | constructs hmain _ | interrupt hmain | acceptThrows hmain =>
    exact absurd (by rw [hmain]; trivial) hleft
  | moves _ => exact ⟨t, ht, rfl, hbegun, hread⟩
  | requests _ hu | requestsAgain _ hu => exact hkeeps hu rfl
  | @callback it u ev c he hu hc =>
    have hid : it ≠ t.id := by
      rintro rfl
      obtain rfl := hsame hu
      cases ev with
      | sslRead got => exact hquiet got rfl
      | requestStop => exact he rfl
      | _ => simp [ThreadConn.step, hread] at hc
    obtain ⟨hmem, -⟩ := mem_of_find ((find_setConn_of_ne (c := c) hid).trans hfound)
    exact ⟨t, hmem, rfl, hbegun, hread⟩
  | @cleanup it u hu hstopped _ =>
    have hid : t.id ≠ it := by
      rintro rfl
      obtain rfl := hsame hu
      rcases (hbegun.1.of_stopped hstopped).2 with hat | hat <;> simp [hread] at hat
    exact ⟨t, List.mem_filter.mpr ⟨ht, by simpa using hid⟩, rfl, hbegun, hread⟩

/-- One client that says nothing keeps `main` from ending: its thread, unless it is in its
initial state, reads on, and the second loop does not get past it. -/
theorem silent_client_blocks (hreach : run {} events = some p) (hleft : ¬ p.main.Accepting)
    (ht : t ∈ p.threads) (hstate : t.conn.state ≠ .waiting) (hread : t.conn.point = .read)
    (hwaits : ¬ p.main.Synced t.id) (hquiet : ∀ got, .callback t.id (.sslRead got) ∉ more)
    (hrun : p.run more = some p') : p'.pointAt t.id = some .read ∧ p'.main ≠ .done := by
  have hregular := regular_start.run hreach
  have hstart : p.Reads t.id := ⟨t, ht, rfl, (hregular.kept t ht).begun hstate, hread⟩
  have hlast := Machine.run_keeps
    (P := fun e => ∀ got, e ≠ .callback t.id (.sslRead got))
    (I := fun p => p.Regular ∧ ¬ p.main.Accepting ∧ p.Reads t.id ∧ ¬ p.main.Synced t.id) ?_
    ⟨hregular, hleft, hstart, hwaits⟩ (fun e he got heq => hquiet got (by rwa [heq] at he)) hrun
  · obtain ⟨hend, -, ⟨u, hu, hid, -, hstill⟩, hnot⟩ := hlast
    constructor
    · rw [pointAt, hend.numbered.find_eq_some.mpr ⟨hu, hid⟩, Option.map_some, hstill]
    · intro hdone
      rw [hdone] at hnot
      exact hnot trivial
  · rintro s e s' ⟨hs, hmain, hreads, hnot⟩ he hnext
    have hcases := step_cases hnext
    refine ⟨hs.step hcases, hcases.left hmain, hreads.step hs hmain he hcases, ?_⟩
    obtain ⟨u, hu, hid, hbegun, hat⟩ := hreads
    rw [← hid] at hnot ⊢
    exact not_synced_step hs hmain hu hbegun hat hnot hcases

theorem silent_client_blocks_waiting :
    waiting.pointAt 0 = some .read ∧ waiting.main ≠ .done :=
  silent_client_blocks (t := ⟨0, _⟩)
    (by decide : run {} (stopping.take 5) = some { silent with main := .requestStop (some 0) })
    (by decide) List.mem_cons_self (by decide) rfl (fun hsynced => hsynced) (by simp)
    (by decide : run { silent with main := .requestStop (some 0) } (List.replicate 5 .main) =
      some waiting)

end Silence

end ServerProcess

namespace ThreadConn

section Returning

variable {c c' : ThreadConn} {e : CallbackEvent}

/-- `callback` can come to its end from here, with the results of its calls alone. -/
def Returns (c : ThreadConn) : Prop :=
  ∃ events c', .requestStop ∉ events ∧ c.run events = some c' ∧ c'.point = .returned

theorem Returns.of_step (he : e ≠ .requestStop) (hstep : c.step e = some c') (h : c'.Returns) :
    c.Returns := by
  obtain ⟨events, last, hown, hrun, hreturned⟩ := h
  refine ⟨e :: events, last, ?_, Machine.run_cons_eq_some.mpr ⟨c', hstep, hrun⟩, hreturned⟩
  rw [List.mem_cons, not_or]
  exact ⟨he.symm, hown⟩

theorem returns_of_returned (h : c.point = .returned) : c.Returns := ⟨[], c, by simp, rfl, h⟩

theorem returns_of_testLoop (h : c.point = .testLoop) : c.Returns := by
  cases hssl : c.ssl with
  | true =>
    have hstep : c.step (.shutdown 1) = some { c with point := .returned } := by
      simp [step, h, hssl]
    exact .of_step (by simp) hstep (returns_of_returned rfl)
  | false =>
    have hstep : c.step .proceed = some { c with point := .returned } := by simp [step, h, hssl]
    exact .of_step (by simp) hstep (returns_of_returned rfl)

/-- A call that throws a `tls_error` ends `callback`. -/
theorem returns_of_throws (he : e ≠ .requestStop)
    (hstep : c.step e = some (c.catching .tlsError)) : c.Returns :=
  .of_step he hstep (returns_of_returned rfl)

theorem returns_of_closeStopping (h : c.point = .closeStopping) : c.Returns := by
  have hcloses : c.step .proceed = some { c.close with point := .setStopped } := by simp [step, h]
  refine .of_step (by simp) hcloses ?_
  exact .of_step (e := .proceed) (by simp) rfl (returns_of_testLoop rfl)

/-- No thread is ever stuck for good. -/
theorem returns (c : ThreadConn) : c.Returns := by
  have hproceed : CallbackEvent.proceed ≠ .requestStop := by simp
  cases hpoint : c.point with
  | returned => exact returns_of_returned hpoint
  | testLoop => exact returns_of_testLoop hpoint
  | closeStopping => exact returns_of_closeStopping hpoint
  | read =>
    exact returns_of_throws (e := .sslRead 0) (by simp) (by simp [step, hpoint, connReadSize])
  | handle =>
    exact returns_of_throws (e := .handled (some .tlsError)) (by simp) (by simp [step, hpoint])
  | send =>
    exact returns_of_throws (e := .sent (some .tlsError)) (by simp) (by simp [step, hpoint])
  | setRunning | setFinished | setStopped =>
    exact .of_step hproceed (by simp only [step, hpoint]; rfl) (returns_of_testLoop rfl)
  | closeCaught =>
    exact .of_step hproceed (by simp only [step, hpoint]; rfl) (returns_of_returned rfl)
  | closeEmpty =>
    refine .of_step hproceed (by simp only [step, hpoint]; rfl) ?_
    exact .of_step (e := .proceed) (by simp) rfl (returns_of_testLoop rfl)
  | testStopping =>
    by_cases hstop : c.state = .stopping
    · refine .of_step hproceed (by simp only [step, hpoint]; rfl) (returns_of_closeStopping ?_)
      rw [if_pos hstop]
    · refine .of_step hproceed (by simp only [step, hpoint]; rfl) (returns_of_testLoop ?_)
      rw [if_neg hstop]

end Returning

end ThreadConn

namespace ServerProcess

section Ends

variable {p p' : ServerProcess} {e : ServerEvent} {id : ℕ} {t : Listed} {c : ThreadConn}
  {events : List ServerEvent}

/-- A step of a thread, or of `main`. -/
def Onward (e : ServerEvent) : Prop := e = .main ∨ ∃ id e', e = .callback id e'

theorem run_callbacks {own : List CallbackEvent} (ht : p.find id = some t)
    (hown : .requestStop ∉ own) (hrun : t.conn.run own = some c) :
    ∃ p', p.run (own.map (.callback id)) = some p' ∧ p'.find id = some ⟨id, c⟩ ∧
      p'.main = p.main := by
  induction own generalizing p t with
  | nil =>
    cases hrun
    obtain ⟨-, rfl⟩ := mem_of_find ht
    exact ⟨p, rfl, ht, rfl⟩
  | cons e own ih =>
    obtain ⟨d, hd, hrest⟩ := Machine.run_cons_eq_some.mp hrun
    rw [List.mem_cons, not_or] at hown
    have hstep : p.step (.callback id e) = some (p.setConn id d) := by
      simp [step, ht, hd, Ne.symm hown.1]
    obtain ⟨p', hmore, hfind, hmain⟩ := ih (find_setConn_self ht) hown.2 hrest
    refine ⟨p', ?_, hfind, hmain⟩
    rw [List.map_cons, run, Machine.run, hstep]
    exact hmore

/-- `main` can go on, perhaps after the thread that it waits for has returned. -/
theorem exists_main_step (hleft : ¬ p.main.Accepting) (hdone : p.main ≠ .done)
    (hnot : ¬ p.Astray) : ∃ before q p', (∀ e ∈ before, ∃ id e', e = .callback id e') ∧
      p.run before = some q ∧ q.step .main = some p' := by
  by_cases hblocked : p.step .main = none
  · rcases (mainStep_eq_none hleft).mp hblocked with hmain | hmain | ⟨it, t, hmain, ht, -⟩
    · exact absurd hmain hdone
    · exact absurd (.inl hmain) hnot
    · obtain ⟨own, c, hown, hrun, hreturned⟩ := t.conn.returns
      obtain ⟨q, hq, hfind, hkept⟩ := run_callbacks ht hown hrun
      refine ⟨own.map (.callback it), q, { q with main := .nextSync it }, ?_, hq, ?_⟩
      · intro e he
        obtain ⟨e', -, rfl⟩ := List.mem_map.mp he
        exact ⟨it, e', rfl⟩
      · simp [step, mainStep, hkept, hmain, access, hfind, hreturned]
  · obtain ⟨p', hp'⟩ := Option.ne_none_iff_exists'.mp hblocked
    exact ⟨[], p, p', by simp, rfl, hp'⟩

/-- The bound for the steps of `main` falls to zero. -/
theorem exists_end (h : p.Numbered) (hleft : ¬ p.main.Accepting) (hnot : ¬ p.Astray) :
    ∃ more p', (∀ e ∈ more, Onward e) ∧ p.run more = some p' ∧ p'.main = .done := by
  induction hweight : p.weight using Nat.strong_induction_on generalizing p with
  | _ n ih =>
    by_cases hdone : p.main = .done
    · exact ⟨[], p, by simp, rfl, hdone⟩
    · obtain ⟨before, q, r, hcalls, hq, hr⟩ := exists_main_step hleft hdone hnot
      have hmain := step_cases hr
      obtain ⟨hnumbered, hqleft, hqnot⟩ : q.Numbered ∧ ¬ q.main.Accepting ∧ ¬ q.Astray := by
        refine Machine.run_keeps (P := fun e => ∃ id e', e = .callback id e')
          (I := fun p => p.Numbered ∧ ¬ p.main.Accepting ∧ ¬ p.Astray) ?_ ⟨h, hleft, hnot⟩ hcalls hq
        rintro s e s' ⟨hs, hsleft, hsnot⟩ ⟨id, e', rfl⟩ hnext
        have hcases := step_cases hnext
        exact ⟨hs.step hcases, hcases.left hsleft,
          not_astray_step hsnot hcases fun _ he => by cases he⟩
      have hspent := weight_run h hleft hq
      have hlt := weight_main hnumbered hmain
      obtain ⟨more, p', honward, hmore, hend⟩ := ih r.weight (by omega) (hnumbered.step hmain)
        (hmain.left hqleft) (not_astray_step hqnot hmain fun _ he => by cases he) rfl
      refine ⟨before ++ .main :: more, p', ?_, ?_, hend⟩
      · intro e he
        rcases List.mem_append.mp he with he | he
        · exact .inr (hcalls e he)
        · rcases List.mem_cons.mp he with rfl | he
          · exact .inl rfl
          · exact honward e he
      · exact Machine.run_append_eq_some.mpr ⟨q, hq, Machine.run_cons_eq_some.mpr ⟨r, hr, hmore⟩⟩

/-- From every state after the interrupt `main` can still come to its end, unless the
cleaner has led it astray. -/
theorem can_end_iff (hreach : run {} events = some p) (hleft : ¬ p.main.Accepting) :
    (∃ more p', p.run more = some p' ∧ p'.main = .done) ↔ ¬ p.Astray := by
  constructor
  · rintro ⟨more, p', hrun, hdone⟩ hastray
    have hend : p'.Astray := Machine.run_invariant (I := Astray)
      (fun _ _ _ hs hnext => astray_step hs (step_cases hnext)) hastray hrun
    rcases hend with hlost | ⟨it, hit, -⟩
    · simp [hdone] at hlost
    · simp [hdone, MainPoint.iterator] at hit
  · intro hnot
    obtain ⟨more, p', -, hrun, hdone⟩ :=
      exists_end (regular_start.run hreach).numbered hleft hnot
    exact ⟨more, p', hrun, hdone⟩

theorem can_end_iff_waiting :
    (∃ more p', waiting.run more = some p' ∧ p'.main = .done) ↔ ¬ waiting.Astray :=
  can_end_iff (by decide : run {} (stopping.take 5 ++ List.replicate 5 .main) = some waiting)
    (by decide)

end Ends

end ServerProcess
end Dotchat
