import Dotchat.InterleavedHandlers
import Dotchat.SendingOrder

/-!
What holds of the database in every interleaving of requests. The relations
between the tables hold in every state. When all handlers have returned, a
channel lists the messages whose sending was acknowledged, each of them once.
-/
namespace Dotchat

open Db Handlers Program Threads

section Ledgers

variable {env : Env} {pool : ServerPool}

/-- The channels are those of the new database and those that threads have
inserted. -/
theorem channels_ledger (h : ReachedPool env pool) : pool.store.db.channels.Perm
    (Database.initial.channels ++ pool.threads.flatMap fun t => channelsIn t.trace) := by
  apply Reached.ledger (fun w : World => w.db.channels) bookChannel h
  intro c v
  cases c with
  | insertChannel name ownerId desc =>
    simp only [perform]
    split
    · rename_i hins
      obtain ⟨-, rfl, rfl⟩ := Database.insertChannel_eq_ok hins
      rfl
    · simp [bookChannel]
  | insertUser name pass =>
    obtain ⟨users, hw⟩ := perform_insertUser env v name pass
    simp [hw, bookChannel]
  | updateUser row =>
    obtain ⟨users, hw⟩ := perform_updateUser env v row
    simp [hw, bookChannel]
  | _ => exact (List.append_nil _).symm

/-- A row as far as it does not depend on the moment of its insertion. -/
def sentRow (m : StoredMessage) : Sent :=
  { channel := m.channel, sender := some m.sender, content := m.content }

/-- The messages are those that threads have inserted. -/
theorem messages_ledger (h : ReachedPool env pool) : (pool.store.db.messages.map sentRow).Perm
    (pool.threads.flatMap fun t => messagesIn t.trace) := by
  apply Reached.ledger (fun w : World => w.db.messages.map sentRow) bookMessage h
  intro c v
  cases c with
  | insertMessage sender channel content sentWhen =>
    simp [perform, Database.insertMessage, bookMessage, sentRow]
  | insertChannel name ownerId desc =>
    obtain ⟨channels, hw⟩ := perform_insertChannel env v name ownerId desc
    simp [hw, bookMessage]
  | insertUser name pass =>
    obtain ⟨users, hw⟩ := perform_insertUser env v name pass
    simp [hw, bookMessage]
  | updateUser row =>
    obtain ⟨users, hw⟩ := perform_updateUser env v row
    simp [hw, bookMessage]
  | _ => exact (List.append_nil _).symm

/-- The discipline and the ends of the requests, in every interleaving. -/
theorem pool_meets (h : ReachedPool env pool) : Relational pool.store.db ∧
    Database.initial.Grows pool.store.db ∧ ∀ t ∈ pool.threads, ∀ o, t.program = .done o →
      Ends (acknowledged t.label.msg) o t.trace pool.store := by
  have hstart : tables.Inv ({} : World) := relational_initial
  have hprogram : ∀ (j : Job) (v : World), tables.Inv v →
      Meets (perform env) tables (Ends (acknowledged j.msg)) j.program [] v :=
    fun j v _ => meets_dispatch env j.turns j.msg v
  obtain ⟨hrel, hgrown, hthreads⟩ := h.meets hstart hprogram
  refine ⟨hrel, hgrown, ?_⟩
  intro t ht o ho
  have hmeets := hthreads t ht
  rw [ho] at hmeets
  exact hmeets pool.store (.refl _) hrel

end Ledgers

/-- Two messages of the master, whose operations alternate after a login. -/
def crossing : List (Move Job) :=
  .spawn ⟨1, masterLogin⟩ :: List.replicate 6 (.call 0) ++
    [.spawn ⟨0, note "a"⟩, .spawn ⟨0, note "b"⟩] ++
    (List.replicate 6 [.call 1, .call 2]).flatten

def crossed : ServerPool := schedule (perform twoDaysLater) Job.program { store := {} } crossing

theorem crossed_reached : ReachedPool twoDaysLater crossed :=
  Reached.schedule .init crossing

/-- The relations hold in every state of every interleaving; a channel whose
creating handler has returned has its owner as a member; and `value()` has never
thrown. -/
theorem relational_of_reached {env : Env} {pool : ServerPool} (h : ReachedPool env pool) :
    Relational pool.store.db ∧
      (∀ c ∈ pool.store.db.channels,
        (∀ t ∈ pool.threads, c ∈ channelsIn t.trace → ∃ o, t.program = .done o) →
        { user := c.ownerId, channel := c.id } ∈ pool.store.db.channelMembers) ∧
      ∀ t ∈ pool.threads, t.program ≠ .done (.threw .badOptionalAccess) := by
  obtain ⟨hrel, hgrown, hends⟩ := pool_meets h
  refine ⟨hrel, ?_, ?_⟩
  · intro c hc hreturned
    rcases List.mem_append.mp ((channels_ledger h).mem_iff.mp hc) with hinitial | hcreated
    · apply hgrown.members
      simp only [Database.initial, List.mem_singleton] at hinitial
      subst hinitial
      exact List.mem_singleton.mpr rfl
    · obtain ⟨t, ht, hct⟩ := List.mem_flatMap.mp hcreated
      obtain ⟨o, ho⟩ := hreturned t ht hct
      exact (hends t ht o ho).owners c hct
  · intro t ht hthrew
    exact (hends t ht _ hthrew).noBadAccess rfl

theorem relational_of_reached_crossed :
    Relational crossed.store.db ∧
      (∀ c ∈ crossed.store.db.channels,
        (∀ t ∈ crossed.threads, c ∈ channelsIn t.trace → ∃ o, t.program = .done o) →
        { user := c.ownerId, channel := c.id } ∈ crossed.store.db.channelMembers) ∧
      ∀ t ∈ crossed.threads, t.program ≠ .done (.threw .badOptionalAccess) :=
  relational_of_reached crossed_reached

/-- The entry that a thread has to leave in a channel: one for a send_msg that was
answered ok, with the user whose session the database found under its token. -/
def acknowledgedIn (c : Int32) (t : ServerThread) : Option (Option Int32 × Bytes) :=
  match t.program, MessageSendRequest.ofMessage t.label.msg with
  | .done (.returned reply), .ok r =>
      if reply = OkayResponse.toMessage {} ∧ r.chanId = c then
        some (ownerOf r.token t.trace, r.msgCnt)
      else none
  | _, _ => none

section Delivery

variable {env : Env} {pool : ServerPool}

/-- A thread that has ended has inserted what it had to. -/
theorem entries_of_thread (c : Int32) {t : ServerThread} {o : Outcome Exc Message}
    (ho : t.program = .done o) (hsent : messagesIn t.trace = acknowledged t.label.msg o t.trace) :
    ((messagesIn t.trace).filter (·.channel = c)).map (fun s => (s.sender, s.content)) =
      (acknowledgedIn c t).toList := by
  rw [hsent, acknowledgedIn, ho]
  rcases o with reply | e | _
  · cases hof : MessageSendRequest.ofMessage t.label.msg with
    | error e => simp [acknowledged, hof]
    | ok r =>
      by_cases hokay : reply = OkayResponse.toMessage {}
      · by_cases hc : r.chanId = c
        · simp [acknowledged, hof, hokay, hc, sentOf]
        · simp [acknowledged, hof, hokay, hc, sentOf]
      · simp [acknowledged, hof, hokay]
  · simp [acknowledged]
  · simp [acknowledged]

/-- When all handlers have returned, a channel has the acknowledged messages. -/
theorem entries_of_ended (h : ReachedPool env pool)
    (hdone : ∀ t ∈ pool.threads, ∃ o, t.program = .done o) (c : Int32) :
    ((pool.store.db.messages.filter (·.channel = c)).map fun m => (some m.sender, m.content)).Perm
      (pool.threads.filterMap (acknowledgedIn c)) := by
  obtain ⟨-, -, hends⟩ := pool_meets h
  have hentries : ∀ t ∈ pool.threads,
      ((messagesIn t.trace).filter (·.channel = c)).map (fun s => (s.sender, s.content)) =
        (acknowledgedIn c t).toList := by
    intro t ht
    obtain ⟨o, ho⟩ := hdone t ht
    exact entries_of_thread c ho (hends t ht o ho).messages
  have hledger := ((messages_ledger h).filter (·.channel = c)).map fun s => (s.sender, s.content)
  rwa [List.filter_map, List.map_map, List.filter_flatMap, List.map_flatMap,
    List.flatMap_congr hentries, ← List.filterMap_eq_flatMap_toList] at hledger

/-- And every channel has its owner as a member. -/
theorem owners_of_ended (h : ReachedPool env pool)
    (hdone : ∀ t ∈ pool.threads, ∃ o, t.program = .done o) :
    ∀ c ∈ pool.store.db.channels,
      { user := c.ownerId, channel := c.id } ∈ pool.store.db.channelMembers := by
  obtain ⟨-, hgrown, hends⟩ := pool_meets h
  intro c hc
  rcases List.mem_append.mp ((channels_ledger h).mem_iff.mp hc) with hinitial | hcreated
  · apply hgrown.members
    simp only [Database.initial, List.mem_singleton] at hinitial
    subst hinitial
    exact List.mem_singleton.mpr rfl
  · obtain ⟨t, ht, hct⟩ := List.mem_flatMap.mp hcreated
    obtain ⟨o, ho⟩ := hdone t ht
    exact (hends t ht o ho).owners c hct

/-- When all handlers have returned, a member with a live session is shown one
entry for each acknowledged message of the channel, and no other. -/
theorem listed_of_reached (h : ReachedPool env pool)
    (hdone : ∀ t ∈ pool.threads, ∃ o, t.program = .done o) {r : ChannelMsgRequest} {u : User}
    (hu : Accepted env pool.store r.token u)
    (hmem : { user := u.id, channel := r.chanId } ∈ pool.store.db.channelMembers) (turns : ℕ) :
    ∃ res, ((respond turns (.channelMsg r)).run (perform env) pool.store).1 =
        .returned (.channelMsg res) ∧
      (res.msgs.map fun m => (some m.sender, m.cnt)).Perm
        (pool.threads.filterMap (acknowledgedIn r.chanId)) := by
  have hrows : ((pool.store.db.messagesOf r.chanId).map fun m => (some m.sender, m.content)).Perm
      (pool.threads.filterMap (acknowledgedIn r.chanId)) := by
    have hsorted := (List.perm_insertionSort (fun m m' : StoredMessage => m.stored ≤ m'.stored)
      (pool.store.db.messages.filter (·.channel = r.chanId))).map
        fun m => (some m.sender, m.content)
    exact hsorted.trans (entries_of_ended h hdone r.chanId)
  have hhandled := handled env turns pool.store (.channelMsg r)
  rcases hrun : (respond turns (.channelMsg r)).run (perform env) pool.store with ⟨o, w'⟩
  rw [hrun] at hhandled
  cases hhandled with
  | rejected ht hno _ =>
    cases ht
    exact absurd hno hu.not_rejected
  | orphaned ht hno =>
    cases ht
    exact absurd hno hu.not_orphaned
  | refused ht hu' hdenies =>
    cases ht
    obtain rfl := hu.unique hu'
    cases hdenies with
    | channelMsg hnone =>
      have hsome := (pool.store.db.getChannelMember_isSome).mpr hmem
      rw [hnone] at hsome
      cases hsome
  | answered ht hu' hs =>
    cases hs with
    | channelMsg _ =>
      refine ⟨_, rfl, ?_⟩
      rw [List.map_map]
      exact hrows

theorem listed_of_reached_crossed :
    ∃ res, ((respond 0 (.channelMsg { token := 7, chanId := 1 })).run (perform twoDaysLater)
        crossed.store).1 = .returned (.channelMsg res) ∧
      (res.msgs.map fun m => (some m.sender, m.cnt)).Perm
        (crossed.threads.filterMap (acknowledgedIn 1)) := by
  have hended : ∀ t ∈ crossed.threads, t.program.ended = true := by decide +kernel
  have haccepted : Accepted twoDaysLater crossed.store 7 master :=
    accepted_iff.mpr (by decide +kernel)
  have hmember : { user := master.id, channel := 1 } ∈ crossed.store.db.channelMembers := by
    decide +kernel
  exact listed_of_reached (r := { token := 7, chanId := 1 }) crossed_reached
    (fun t ht => ended_iff.mp (hended t ht)) haccepted hmember 0

example : crossed.threads.filterMap (acknowledgedIn 1) =
    [(some 1, ascii "a"), (some 1, ascii "b")] := by
  decide +kernel

end Delivery

end Dotchat
